import Mathlib.Algebra.Order.BigOperators.Group.List
import Mathlib.Data.List.Induction
import Zambesii.KernelTypes

/-!
The full name of a tag, which is put together from the end of a buffer to its front. A write outside
of the buffer is not defined.
-/

namespace Zambesii.TagFullName

open KernelTypes List

def kloadVaddrBase : Nat := 0xC0000000

/-- `sizeof(vfs::Tag)`, whose last member is the name. -/
def sizeofTag (maxNameLength : Nat) : Nat :=
  20 + maxNameLength

/-- The names of a tag and of its parents below the root. A name ends within its array, and the tags
are different objects in the kernel's part of the address space. -/
structure TagPath (maxNameLength : Nat) where
  names : List (List Char)
  names_lt : ∀ name ∈ names, name.length < maxNameLength
  names_ne_nil : ∀ name ∈ names, name ≠ []
  size_le : names.length * sizeofTag maxNameLength ≤ wordModulus - kloadVaddrBase

structure State where
  buffer : List Char
  index : Nat
  totalRequiredMem : Nat
  maxBuffLenExceeded : Bool

def put (buffer : List Char) (index : Nat) (text : List Char) : Option (List Char) :=
  if index + text.length ≤ buffer.length then
    some (buffer.take index ++ (text ++ buffer.drop (index + text.length)))
  else none

def addSegment (state : State) (name : List Char) : Option State :=
  let segmentLen := name.length
  let next := { state with
    index := (state.index + (wordModulus - (segmentLen + 1))) % wordModulus
    totalRequiredMem := (state.totalRequiredMem + (segmentLen + 1)) % wordModulus }
  if state.maxBuffLenExceeded then some next
  else if state.index < segmentLen + 1 then some { next with maxBuffLenExceeded := true }
  else if 0 < segmentLen then do
    let buffer ← put state.buffer (state.index - segmentLen - 1) ['/']
    let buffer ← put buffer (state.index - segmentLen) name
    some { next with buffer := buffer }
  else some next

def signed (word : Nat) : Int :=
  if word < 2 ^ 31 then word else word - wordModulus

def errorSuccess : Int := 0

def errorInvalidArg : Int := -10

/-- `Tag::getFullName`: what it returns, and the buffer then. The buffer has `maxBuffLen`
characters. -/
def getFullName (names : List (List Char)) (buffer : List Char) : Option (Int × List Char) :=
  let maxBuffLen := buffer.length
  if maxBuffLen = 0 then some (errorInvalidArg, buffer)
  else do
    let buffer ← put buffer (maxBuffLen - 1) ['\x00']
    let last ← names.foldlM addSegment ⟨buffer, maxBuffLen - 1, 1, false⟩
    if last.maxBuffLenExceeded then some (signed last.totalRequiredMem, last.buffer)
    else do
      let buffer ← put last.buffer 0 (last.buffer.drop last.index)
      some (errorSuccess, buffer)

section

def fullName (names : List (List Char)) : List Char :=
  names.reverse.flatMap fun name => '/' :: name

def requiredMem (names : List (List Char)) : Nat :=
  1 + (names.map fun name => name.length + 1).sum

variable {n : Nat} {done : List (List Char)} {name : List Char} {state : State}

theorem fullName_concat : fullName (done ++ [name]) = '/' :: name ++ fullName done := by
  simp [fullName]

theorem requiredMem_concat : requiredMem (done ++ [name]) = requiredMem done + (name.length + 1) := by
  simp [requiredMem, add_assoc]

theorem requiredMem_lt {maxNameLength : Nat} (path : TagPath maxNameLength) :
    requiredMem path.names < 2 ^ 31 := by
  have hsum : (path.names.map fun name => name.length + 1).sum ≤
      path.names.length * sizeofTag maxNameLength := by
    have hsizes : ∀ size ∈ path.names.map fun name => name.length + 1,
        size ≤ sizeofTag maxNameLength := by
      intro size hsize
      obtain ⟨name, hname, rfl⟩ := mem_map.mp hsize
      have hlt := path.names_lt name hname
      simp only [sizeofTag]
      omega
    simpa using sum_le_card_nsmul _ _ hsizes
  have hle := path.size_le
  simp only [requiredMem, kloadVaddrBase, wordModulus] at *
  omega

/-- What the buffer holds after the rounds for some names: their full name at its end, as long as
there is room for it. -/
structure Built (n : Nat) (done : List (List Char)) (state : State) : Prop where
  length : state.buffer.length = n
  total : state.totalRequiredMem = requiredMem done
  exceeded : state.maxBuffLenExceeded = decide (n < requiredMem done)
  index : requiredMem done ≤ n → state.index + requiredMem done = n
  text : requiredMem done ≤ n → state.buffer.drop state.index = fullName done ++ ['\x00']

theorem put_of_le {buffer : List Char} {index : Nat} {text : List Char}
    (h : index + text.length ≤ buffer.length) :
    ∃ next, put buffer index text = some next ∧ next.length = buffer.length ∧
      next.drop index = text ++ buffer.drop (index + text.length) := by
  refine ⟨_, if_pos h, ?_, ?_⟩
  · simp
    omega
  · rw [drop_append_of_le_length (by simp; omega), drop_take_self, nil_append]

theorem put_put (buffer : List Char) (index : Nat) (first second : List Char)
    (h : index + (first ++ second).length ≤ buffer.length) :
    (put buffer index first).bind (put · (index + first.length) second) =
      put buffer index (first ++ second) := by
  rw [length_append] at h
  have htake : (buffer.take index).length = index := length_take_of_le (by omega)
  have hrest : ((buffer.take index ++ (first ++ buffer.drop (index + first.length))).drop
      (index + first.length + second.length)) =
      buffer.drop (index + (first.length + second.length)) := by
    rw [← append_assoc, drop_append, drop_eq_nil_of_le (by simp; omega),
      drop_drop]
    simp [htake, Nat.add_assoc]
  have hfront : (buffer.take index ++ (first ++ buffer.drop (index + first.length))).take
      (index + first.length) = buffer.take index ++ first := by
    rw [← append_assoc, take_left' (by simp [htake])]
  rw [put, if_pos (by omega), Option.bind_some, put, if_pos (by simp; omega), put,
    if_pos (by simp; omega), hrest, hfront, append_assoc, append_assoc,
    length_append]

theorem Built.addSegment (h : Built n done state) (hn : n < wordModulus) (hname : name ≠ [])
    (hrequired : requiredMem (done ++ [name]) < wordModulus) :
    ∃ next, addSegment state name = some next ∧ Built n (done ++ [name]) next := by
  have htotal := h.total
  have hlength : 0 < name.length := length_pos_iff.mpr hname
  rw [requiredMem_concat] at hrequired
  rw [TagFullName.addSegment]
  rw [htotal, Nat.mod_eq_of_lt hrequired, h.exceeded]
  rcases lt_or_ge n (requiredMem done) with hlt | hge
  · rw [if_pos (decide_eq_true hlt)]
    refine ⟨_, rfl, h.length, requiredMem_concat.symm, ?_, ?_, ?_⟩
    all_goals rw [requiredMem_concat]
    · simp [hlt, Nat.lt_add_right _ hlt]
    · omega
    · omega
  rw [if_neg (by simpa using hge)]
  have hindex := h.index hge
  rcases lt_or_ge state.index (name.length + 1) with hfull | hroom
  · rw [if_pos hfull]
    refine ⟨_, rfl, h.length, requiredMem_concat.symm, ?_, ?_, ?_⟩
    all_goals rw [requiredMem_concat]
    · simpa using by omega
    · omega
    · omega
  rw [if_neg (by omega), if_pos hlength]
  obtain ⟨buffer, hput, hkeep, htext⟩ := @put_of_le state.buffer (state.index - name.length - 1)
    ('/' :: name) (by have := h.length; have := h.index hge; simp; omega)
  have hstores := put_put state.buffer (state.index - name.length - 1) ['/'] name
    (by have := h.length; simp; omega)
  rw [singleton_append, hput, length_singleton,
    show state.index - name.length - 1 + 1 = state.index - name.length by omega] at hstores
  have hnext : (state.index + (wordModulus - (name.length + 1))) % wordModulus =
      state.index - name.length - 1 := by
    rw [show state.index + (wordModulus - (name.length + 1)) =
      state.index - name.length - 1 + wordModulus by omega, Nat.add_mod_right,
      Nat.mod_eq_of_lt (by omega)]
  refine ⟨{ state with
    buffer := buffer
    index := state.index - name.length - 1
    totalRequiredMem := requiredMem done + (name.length + 1)
    maxBuffLenExceeded := decide (n < requiredMem done) }, ?_, hkeep.trans h.length,
    requiredMem_concat.symm, ?_, ?_, ?_⟩
  · simp only [hnext]
    refine (Option.bind_assoc _ _ _).symm.trans ?_
    rw [hstores, Option.bind_some]
  all_goals rw [requiredMem_concat]
  · simp only [decide_eq_decide]
    omega
  · intro hle
    dsimp only
    omega
  · intro hle
    rw [htext, fullName_concat, length_cons,
      show state.index - name.length - 1 + (name.length + 1) = state.index by omega, h.text hge,
      append_assoc]

theorem Built.run {names : List (List Char)} (h : Built n done state) (hn : n < wordModulus)
    (hnames : ∀ name ∈ names, name ≠ []) (hrequired : requiredMem (done ++ names) < wordModulus) :
    ∃ last, names.foldlM TagFullName.addSegment state = some last ∧
      Built n (done ++ names) last := by
  induction names generalizing done state with
  | nil =>
    rw [append_nil]
    exact ⟨state, rfl, h⟩
  | cons name names ih =>
    rw [append_cons] at hrequired ⊢
    have hle : requiredMem (done ++ [name]) ≤ requiredMem (done ++ [name] ++ names) := by
      simp [requiredMem]
    obtain ⟨next, hnext, hbuilt⟩ := h.addSegment hn (hnames name mem_cons_self)
      (hle.trans_lt hrequired)
    obtain ⟨last, hlast, hdone⟩ := ih hbuilt
      (fun other hmem => hnames other (mem_cons_of_mem _ hmem)) hrequired
    exact ⟨last, by rw [foldlM_cons, hnext]; exact hlast, hdone⟩

/-- The name and its NUL are in the buffer when it has room for them; otherwise the size it needs is
returned. -/
theorem getFullName_returns {maxNameLength : Nat} (path : TagPath maxNameLength)
    (buffer : List Char) (hne : buffer ≠ []) (hlt : buffer.length < wordModulus) :
    ∃ returned next, getFullName path.names buffer = some (returned, next) ∧
      next.length = buffer.length ∧
      (returned = errorSuccess ↔ requiredMem path.names ≤ buffer.length) ∧
      (returned = errorSuccess → fullName path.names ++ ['\x00'] <+: next) ∧
      (returned ≠ errorSuccess → returned = requiredMem path.names) := by
  have hpos := length_pos_iff.mpr hne
  have hrequired := requiredMem_lt path
  obtain ⟨start, hstart, hlength, htext⟩ := @put_of_le buffer (buffer.length - 1) ['\x00']
    (by simp; omega)
  have hbuilt : Built buffer.length [] ⟨start, buffer.length - 1, 1, false⟩ := by
    refine ⟨hlength, rfl, ?_, ?_, ?_⟩
    · simpa [requiredMem] using by omega
    · simpa [requiredMem] using by omega
    · intro _
      rw [htext, drop_eq_nil_of_le (by simp; omega)]
      rfl
  obtain ⟨last, hlast, hdone⟩ := hbuilt.run hlt path.names_ne_nil
    (by simp only [nil_append, wordModulus] at *; omega)
  rw [nil_append] at hdone
  rw [getFullName, if_neg hpos.ne', hstart, some_bind, hlast, some_bind, hdone.exceeded]
  rcases lt_or_ge buffer.length (requiredMem path.names) with hover | hfits
  · have hsigned : signed last.totalRequiredMem = requiredMem path.names := by
      rw [hdone.total, signed, if_pos hrequired]
    have hnonzero : (requiredMem path.names : Int) ≠ errorSuccess := by
      simp only [errorSuccess]
      omega
    rw [if_pos (decide_eq_true hover), hsigned]
    exact ⟨_, _, rfl, hdone.length, ⟨fun h => absurd h hnonzero, fun h => absurd h (by omega)⟩,
      fun h => absurd h hnonzero, fun _ => rfl⟩
  · obtain ⟨next, hput, hkeep, hfront⟩ := @put_of_le last.buffer 0 (last.buffer.drop last.index)
      (by simp)
    rw [if_neg (by simpa using hfits), hput, some_bind]
    refine ⟨_, _, rfl, hkeep.trans hdone.length, ⟨fun _ => hfits, fun _ => rfl⟩, fun _ => ?_,
      fun h => absurd rfl h⟩
    rw [drop_zero, hdone.text hfits] at hfront
    exact ⟨_, hfront.symm⟩

def ttyPath : TagPath 256 where
  names := [['t', 't', 'y'], ['d', 'e', 'v']]
  names_lt := by decide
  names_ne_nil := by decide
  size_le := by decide

theorem getFullName_ttyPath : ∃ returned next,
      getFullName ttyPath.names (List.replicate 9 '?') = some (returned, next) ∧
        next.length = 9 ∧ (returned = errorSuccess ↔ requiredMem ttyPath.names ≤ 9) ∧
        (returned = errorSuccess → fullName ttyPath.names ++ ['\x00'] <+: next) ∧
        (returned ≠ errorSuccess → returned = requiredMem ttyPath.names) :=
  getFullName_returns ttyPath (replicate 9 '?') (by decide) (by decide)

end

end Zambesii.TagFullName
