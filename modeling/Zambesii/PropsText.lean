import Mathlib.Algebra.Order.Ring.Nat
import Mathlib.Data.List.TakeWhile

/-!
The text functions of the parser of `zudiindex`, and the conversion of numbers it takes from the C
library. A pointer into a line is what is left of the line from there.
-/

namespace Zambesii.PropsText

abbrev Text := List Char

def cString (bytes : Text) : Text :=
  bytes.takeWhile (· ≠ '\x00')

def isBlank (c : Char) : Bool :=
  c = ' ' || c = '\t'

def skipWhitespaceIn (str : Text) : Text :=
  str.dropWhile isBlank

def findWhitespaceAfter : Text → Option Text
  | [] => none
  | c :: str => if isBlank c then some (c :: str) else findWhitespaceAfter str

def strlenUpToWhitespace (str : Text) : Option Text → Nat
  | none => str.length
  | some white => str.length - white.length

def strcpyUpToWhitespace (source : Text) (white : Option Text) : Text :=
  source.take (strlenUpToWhitespace source white)

def hasSlashes (str : Text) : Bool :=
  str.contains '/'

def startsWith (keyword : String) (line : Text) : Bool :=
  keyword.toList.isPrefixOf line

def afterWord (line : Text) : Text :=
  line.drop (strlenUpToWhitespace line (findWhitespaceAfter line))

def isSpace (c : Char) : Bool :=
  c = ' ' || ('\t' ≤ c && c ≤ '\r')

def digitValue (c : Char) : Option Nat :=
  if '0' ≤ c ∧ c ≤ '9' then some (c.toNat - '0'.toNat)
  else if 'a' ≤ c ∧ c ≤ 'z' then some (c.toNat - 'a'.toNat + 10)
  else if 'A' ≤ c ∧ c ≤ 'Z' then some (c.toNat - 'A'.toNat + 10)
  else none

def digitBelow (base : Nat) (c : Char) : Option Nat :=
  (digitValue c).filter (· < base)

def takeDigits (base : Nat) : Text → List Nat × Text
  | [] => ([], [])
  | c :: text =>
    match digitBelow base c with
    | none => ([], c :: text)
    | some digit => (digit :: (takeDigits base text).1, (takeDigits base text).2)

def takeSign : Text → Bool × Text
  | '-' :: text => (true, text)
  | '+' :: text => (false, text)
  | text => (false, text)

/-- The text after a prefix `0x` that a digit follows. -/
def hexPrefix : Text → Option Text
  | '0' :: x :: c :: text =>
    if (x = 'x' || x = 'X') && (digitBelow 16 c).isSome then some (c :: text) else none
  | _ => none

def takeBase (base : Nat) (text : Text) : Nat × Text :=
  match base, hexPrefix text with
  | 0, some digits => (16, digits)
  | 16, some digits => (16, digits)
  | 0, none => (if text.head? = some '0' then 8 else 10, text)
  | base, _ => (base, text)

/-- The greatest `unsigned long` of the 64-bit host. -/
def ulongMax : Nat := 2 ^ 64 - 1

/-- The value of the digits: clamped when it is too large, and negated in the type otherwise. -/
def ulongValue (negated : Bool) (value : Nat) : Nat :=
  if ulongMax < value then ulongMax
  else if negated then (2 ^ 64 - value) % 2 ^ 64
  else value

/-- The value, and the end of the number: the start of the text when there is none. -/
def strtoul (text : Text) (base : Nat) : Nat × Text :=
  let sign := takeSign (text.dropWhile isSpace)
  let number := takeBase base sign.2
  let digits := takeDigits number.1 number.2
  if digits.1 = [] then (0, text)
  else (ulongValue sign.1 (digits.1.foldl (fun value digit => value * number.1 + digit) 0),
    digits.2)

section

/-- The text of a `char` array of `size` bytes. -/
structure BoundedText (size : Nat) where
  text : Text
  fits : text.length < size
deriving DecidableEq

def boundedText (size : Nat) (text : Text) : Option (BoundedText size) :=
  if fits : text.length < size then some ⟨text, fits⟩ else none

/-- The entries in use of an array of `capacity` entries. -/
structure Entries (α : Type) (capacity : Nat) where
  items : List α
  fits : items.length ≤ capacity
deriving DecidableEq

variable {α : Type} {capacity : Nat}

namespace Entries

def empty : Entries α capacity := ⟨[], Nat.zero_le capacity⟩

def cons (entry : α) (entries : Entries α capacity) : Entries α (capacity + 1) :=
  ⟨entry :: entries.items, Nat.succ_le_succ entries.fits⟩

def full (entries : Entries α capacity) : Prop := capacity ≤ entries.items.length

instance (entries : Entries α capacity) : Decidable entries.full :=
  inferInstanceAs (Decidable (capacity ≤ entries.items.length))

/-- The first free entry, as what a value stored there makes of the array. There is none in an array
that is full: the store is beyond its end. -/
def slot (entries : Entries α capacity) : Option (α → Entries α capacity) :=
  if h : entries.full then none
  else some fun entry => ⟨entries.items ++ [entry], by
    rw [List.length_append, List.length_singleton]
    exact Nat.lt_of_not_le h⟩

theorem slot_of_full {entries : Entries α capacity} (h : entries.full) : entries.slot = none :=
  dif_pos h

theorem exists_slot_of_not_full {entries : Entries α capacity} (h : ¬entries.full) :
    ∃ append, entries.slot = some append :=
  ⟨_, dif_neg h⟩

end Entries

end

/-- What is left of a text after `n` parts, each of which `next` takes off it. -/
def restAfter (next : Text → Option Text) : Nat → Text → Option Text
  | 0, line => some line
  | n + 1, line => (next line).bind (restAfter next n)

/-- Something is left of the text after `n` parts. -/
def MoreThan (next : Text → Option Text) (n : Nat) (line : Text) : Prop :=
  ∃ c rest, restAfter next n line = some (c :: rest)

theorem moreThan_succ {next : Text → Option Text} {n : Nat} {line : Text} :
    MoreThan next (n + 1) line ↔ ∃ rest, next line = some rest ∧ MoreThan next n rest := by
  constructor
  · rintro ⟨c, rest, h⟩
    obtain ⟨line', hline', hrest⟩ := Option.bind_eq_some_iff.mp h
    exact ⟨line', hline', c, rest, hrest⟩
  · rintro ⟨line', hline', c, rest, hrest⟩
    exact ⟨c, rest, Option.bind_eq_some_iff.mpr ⟨line', hline', hrest⟩⟩

theorem not_moreThan_nil {next : Text → Option Text} (h : next [] = none) (n : Nat) :
    ¬MoreThan next n [] := by
  cases n with
  | zero =>
    rintro ⟨c, rest, hrest⟩
    cases hrest
  | succ n =>
    rw [moreThan_succ, h]
    rintro ⟨rest, hrest, -⟩
    cases hrest

theorem skipWhitespaceIn_length_le (str : Text) : (skipWhitespaceIn str).length ≤ str.length :=
  List.length_dropWhile_le isBlank str

theorem length_skip_of_findWhitespaceAfter {str white : Text}
    (h : findWhitespaceAfter str = some white) : (skipWhitespaceIn white).length < str.length := by
  induction str with
  | nil => cases h
  | cons c str ih =>
    unfold findWhitespaceAfter at h
    split at h
    · rename_i hblank
      cases h
      unfold skipWhitespaceIn
      rw [List.dropWhile_cons_of_pos hblank]
      exact Nat.lt_succ_of_le (skipWhitespaceIn_length_le str)
    · exact (ih h).trans (Nat.lt_succ_self _)

theorem afterWord_length_le (line : Text) : (afterWord line).length ≤ line.length := by
  unfold afterWord
  rw [List.length_drop]
  exact Nat.sub_le _ _

end Zambesii.PropsText
