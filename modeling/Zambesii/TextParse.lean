import Zambesii.PropsText

/-!
The text loader of `zudiindex`: the logical lines of a `udiprops` file, which are put together in
one line buffer. What is handed a line is a parameter; a read or a write outside the buffer is not
defined.
-/

namespace Zambesii.TextParse

open List Option PropsText

def newline : Text := ['\n']
def nul : Text := ['\x00']

structure TextFile where
  chars : Text
  noNul : '\x00' ∉ chars

def udipropsLineMaxlen : Nat := 512

def propsLineBuffSize : Nat := 515

/-- The texts that `fgets` reads from the file one after the other, when there is room for this
number of characters in the first of them. Each ends with a newline, for lack of room, or with the
file. -/
def reads : (room : Nat) → Text → List Text
  | _, [] => []
  | room, c :: file =>
    if c = '\n' ∨ room ≤ 1 then [c] :: reads (udipropsLineMaxlen - 1) file
    else
      match reads (room - 1) file with
      | [] => [[c]]
      | read :: rest => (c :: read) :: rest

/-- `feof` after a text has been read. -/
def atEof (read : Text) : Prop :=
  read.length < udipropsLineMaxlen - 1 ∧ read.getLast? ≠ some '\n'

instance (read : Text) : Decidable (atEof read) :=
  inferInstanceAs (Decidable (_ ∧ _))

section

structure State where
  buff : Text
  buffIndex : Int
  lineLength : Int
deriving DecidableEq

def readAt (buff : Text) (index : Int) : Option Char :=
  if 0 ≤ index then buff[index.toNat]? else none

def storeAt (buff : Text) (index : Int) (text : Text) : Option Text :=
  if 0 ≤ index ∧ index.toNat + text.length ≤ buff.length then
    some (buff.take index.toNat ++ text ++ buff.drop (index.toNat + text.length))
  else none

def lineSegmentLength (buff : Text) (buffIndex : Int) : Option Int :=
  let str := cString (buff.drop buffIndex.toNat)
  if '#' ∈ str then some (str.takeWhile (· ≠ '#')).length
  else do
    let c ← readAt buff (buffIndex + (str.length - 1) - 1)
    some (if c = '\r' then str.length - 1 - 1 else str.length - 1)

/-- What is done with a segment that has been read: whether the line goes on, and the state. -/
def stripSegment (state : State) : Option (Bool × State) := do
  let length ← lineSegmentLength state.buff state.buffIndex
  let buff ← storeAt state.buff (state.buffIndex + length) nul
  let c ← readAt buff (state.buffIndex + length - 1)
  if c = '\\' then
    some (true, ⟨buff, state.buffIndex + length - 1, state.lineLength + length - 1⟩)
  else some (false, ⟨buff, state.buffIndex, state.lineLength + length⟩)

/-- The lines that are handed to the parser, whether it accepts them or not, when `feof` is set; the
loader reports success then. -/
def lineAtEof (state : State) : List Text × Bool :=
  if state.lineLength < 2 then ([], true) else ([cString state.buff], true)

variable {σ : Type}

/-- Both loops of `textParse` on the texts that are still to be read, with the lines that are handed
to `accept`, which is the parser with the index, and whether success is reported. -/
def textParseLoop (accept : σ → Text → Bool × σ) :
    σ → State → List Text → Option (List Text × Bool)
  | _, state, [] => some (lineAtEof state)
  | parser, state, read :: rest =>
    match storeAt state.buff state.buffIndex (read ++ nul) with
    | none => none
    | some buff =>
      if atEof read then some (lineAtEof { state with buff := buff })
      else
        match stripSegment { state with buff := buff } with
        | none => none
        | some (true, next) => textParseLoop accept parser next rest
        | some (false, next) =>
          if next.lineLength < 2 then textParseLoop accept parser ⟨next.buff, 0, 0⟩ rest
          else if (accept parser (cString next.buff)).1 then
            (textParseLoop accept (accept parser (cString next.buff)).2
              ⟨next.buff, 0, 0⟩ rest).map fun result =>
                (cString next.buff :: result.1, result.2)
          else some ([cString next.buff], false)

def textParse (accept : σ → Text → Bool × σ) (parser : σ) (file : TextFile) :
    Option (List Text × Bool) :=
  textParseLoop accept parser ⟨List.replicate propsLineBuffSize '\x00', 0, 0⟩
    (reads (udipropsLineMaxlen - 1) file.chars)

end

section

def physicalLines : Text → List Text × Text
  | [] => ([], [])
  | c :: file =>
    let (lines, last) := physicalLines file
    if c = '\n' then ([] :: lines, last)
    else
      match lines with
      | [] => ([], c :: last)
      | line :: lines => ((c :: line) :: lines, last)

def strip (line : Text) : Text :=
  if '#' ∈ line then line.takeWhile (· ≠ '#')
  else if line.getLast? = some '\r' then line.dropLast
  else line

def continued (line : Text) : Prop := line.getLast? = some '\\'

instance (line : Text) : Decidable (continued line) :=
  inferInstanceAs (Decidable (_ = _))

def part (line : Text) : Text :=
  if continued line then line.dropLast else line

def unlessEmpty (text : Text) : List Text :=
  if text = [] then [] else [text]

/-- The logical lines of physical lines and of the last one, after the text of those that are joined
with the first of them. Empty ones are skipped. -/
def logicalLines (last : Text) : (text : Text) → List Text → List Text
  | text, [] => unlessEmpty (text ++ part (strip last))
  | text, line :: lines =>
    if continued (strip line) then logicalLines last (text ++ part (strip line)) lines
    else unlessEmpty (text ++ part (strip line)) ++ logicalLines last [] lines

variable {σ : Type}

def handed (accept : σ → Text → Bool × σ) : σ → List Text → List Text × Bool
  | _, [] => ([], true)
  | parser, line :: lines =>
    if (accept parser line).1 then
      (line :: (handed accept (accept parser line).2 lines).1,
        (handed accept (accept parser line).2 lines).2)
    else ([line], false)

/-- The loader stays in its buffer, hands over the logical lines of the file until one is not
accepted, and reports success when none is. -/
def Correct (accept : σ → Text → Bool × σ) (parser : σ) (file : TextFile) : Prop :=
  textParse accept parser file = some (handed accept parser
    (logicalLines (physicalLines file.chars).2 [] (physicalLines file.chars).1))

end

section

/-- The line is empty, and what is tested in its place is the end of the text it is joined to. -/
def LooksBehind (text line : Text) : Prop :=
  (strip line = [] ∧ text.getLast? = some '\\') ∨ (line = [] ∧ text.getLast? = some '\r')

/-- The line is read at once, with its newline, and does not look behind. -/
def PlainLine (text line : Text) : Prop :=
  line.length + 1 < udipropsLineMaxlen ∧ ¬LooksBehind text line

variable {σ : Type}

/-- What follows the last newline adds nothing, or it is handed over as it stands and accepted; no
text is left over when nothing follows. -/
def SoundEnd (accept : σ → Text → Bool × σ) (last : Text) (parser : σ) (text : Text) : Prop :=
  if last = [] then text = []
  else
    last.length + 1 < udipropsLineMaxlen ∧ text.length + last.length < propsLineBuffSize ∧
      if text.length < 2 then text ++ part (strip last) = []
      else part (strip last) = last ∧ (accept parser (text ++ last)).1 = true

/-- Up to the first logical line that is not accepted, every logical line has two characters or
more, each of its physical lines is plain and fits in the buffer after the text before it, and the
end is sound. -/
def Sound (accept : σ → Text → Bool × σ) (last : Text) : σ → (text : Text) → List Text → Prop
  | parser, text, [] => SoundEnd accept last parser text
  | parser, text, line :: lines =>
    PlainLine text line ∧ text.length + line.length + 1 < propsLineBuffSize ∧
      if continued (strip line) then Sound accept last parser (text ++ part (strip line)) lines
      else
        2 ≤ (text ++ strip line).length ∧
          ((accept parser (text ++ strip line)).1 = true →
            Sound accept last (accept parser (text ++ strip line)).2 [] lines)

/-- Up to the first logical line that is not accepted, every physical line is plain, and the last
one is read at once. -/
def Plain (accept : σ → Text → Bool × σ) (last : Text) : σ → (text : Text) → List Text → Prop
  | _, _, [] => last.length + 1 < udipropsLineMaxlen
  | parser, text, line :: lines =>
    PlainLine text line ∧
      if continued (strip line) then Plain accept last parser (text ++ part (strip line)) lines
      else
        (accept parser (text ++ strip line)).1 = true →
          Plain accept last (accept parser (text ++ strip line)).2 [] lines

end

theorem noNul_append {text tail : Text} (htext : '\x00' ∉ text) (htail : '\x00' ∉ tail) :
    '\x00' ∉ text ++ tail := by
  rw [mem_append]
  rintro (hmem | hmem)
  · exact htext hmem
  · exact htail hmem

theorem cString_append {text : Text} (h : '\x00' ∉ text) (tail : Text) :
    cString (text ++ '\x00' :: tail) = text := by
  unfold cString
  rw [takeWhile_append_of_pos, takeWhile_cons_of_neg, append_nil]
  · simp
  · intro c hc
    simp only [ne_eq, decide_not, Bool.not_eq_eq_eq_not, Bool.not_true, decide_eq_false_iff_not]
    rintro rfl
    exact h hc

theorem storeAt_append (text tail new : Text) :
    storeAt (text ++ tail) text.length new =
      if new.length ≤ tail.length then some (text ++ new ++ tail.drop new.length) else none := by
  unfold storeAt
  rw [Int.toNat_natCast, length_append, take_left', drop_append,
    drop_eq_nil_of_le (Nat.le_add_right _ _), nil_append, Nat.add_sub_cancel_left]
  · simp
  · rfl

theorem readAt_append (text tail : Text) :
    readAt (text ++ tail) ((text.length : Int) - 1) = text.getLast? := by
  unfold readAt
  rw [getLast?_eq_getElem?]
  cases text with
  | nil => rfl
  | cons c text =>
    rw [if_pos (by simp)]
    have hindex : (((c :: text).length : Int) - 1).toNat = (c :: text).length - 1 := by simp
    rw [hindex, getElem?_append_left (by simp)]

theorem exists_strip_append (line : Text) : ∃ rest, line = strip line ++ rest := by
  unfold strip
  split
  · exact ⟨_, (takeWhile_append_dropWhile).symm⟩
  split
  · rename_i hlast
    obtain ⟨init, rfl⟩ := getLast?_eq_some_iff.mp hlast
    exact ⟨['\r'], by rw [dropLast_concat]⟩
  · exact ⟨[], (append_nil line).symm⟩

theorem part_of_continued {line : Text} (h : continued line) : line = part line ++ ['\\'] := by
  unfold part
  rw [if_pos h]
  obtain ⟨init, rfl⟩ := getLast?_eq_some_iff.mp h
  rw [dropLast_concat]

theorem part_of_not_continued {line : Text} (h : ¬continued line) : part line = line :=
  if_neg h

/-- The text of a line that is being put together is in the buffer, and after it, when there is one,
the backslash that joins it with what is read next. -/
structure Holds (state : State) (text : Text) : Prop where
  buffIndex : state.buffIndex = text.length
  lineLength : state.lineLength = text.length
  size : state.buff.length = propsLineBuffSize
  holds : ∃ tail, state.buff = text ++ tail ∧
    (text ≠ [] → ∃ tail', tail = '\\' :: '\x00' :: tail')

theorem Holds.store {state : State} {text : Text} (h : Holds state text) (new : Text) :
    (propsLineBuffSize < text.length + new.length ∧ storeAt state.buff state.buffIndex new = none) ∨
      (text.length + new.length ≤ propsLineBuffSize ∧
        ∃ tail, storeAt state.buff state.buffIndex new = some (text ++ new ++ tail) ∧
          (text ++ new ++ tail).length = propsLineBuffSize) := by
  obtain ⟨tail, hbuff, -⟩ := h.holds
  have hsize := h.size
  rw [hbuff, length_append] at hsize
  rw [hbuff, h.buffIndex, storeAt_append]
  rcases lt_or_ge tail.length new.length with hlt | hge
  · exact .inl ⟨by omega, if_neg (by omega)⟩
  · refine .inr ⟨by omega, tail.drop new.length, if_pos hge, ?_⟩
    rw [length_append, length_append, length_drop]
    omega

theorem cString_segment {text line : Text} (hline : '\x00' ∉ line) (tail : Text) :
    cString ((text ++ (line ++ newline ++ nul) ++ tail).drop text.length) = line ++ newline := by
  rw [append_assoc, drop_left, append_assoc]
  exact cString_append (noNul_append hline (by decide)) tail

theorem mem_segment_iff (line : Text) : '#' ∈ line ++ newline ↔ '#' ∈ line := by
  simp [newline]

theorem takeWhile_segment {line : Text} (h : '#' ∈ line) :
    (line ++ newline).takeWhile (· ≠ '#') = line.takeWhile (· ≠ '#') := by
  rw [takeWhile_append]
  have hne : ¬(line.takeWhile (· ≠ '#')).length = line.length := by
    intro hlength
    have hall := takeWhile_eq_self_iff.mp
      ((List.takeWhile_prefix _).eq_of_length hlength) '#' h
    simp at hall
  rw [if_neg hne]

theorem lineSegmentLength_of_comment {text line : Text} (hline : '\x00' ∉ line) (h : '#' ∈ line)
    (tail : Text) : lineSegmentLength (text ++ (line ++ newline ++ nul) ++ tail) text.length =
      some ((strip line).length : Int) := by
  unfold lineSegmentLength
  rw [Int.toNat_natCast, cString_segment hline]
  rw [if_pos ((mem_segment_iff line).mpr h), takeWhile_segment h]
  unfold strip
  rw [if_pos h]

theorem lineSegmentLength_of_no_comment {text line : Text} (hline : '\x00' ∉ line)
    (h : '#' ∉ line) (tail : Text) :
    lineSegmentLength (text ++ (line ++ newline ++ nul) ++ tail) text.length =
      (text ++ line).getLast?.map fun c =>
        if c = '\r' then (line.length : Int) - 1 else line.length := by
  unfold lineSegmentLength
  rw [Int.toNat_natCast, cString_segment hline]
  rw [if_neg (mt (mem_segment_iff line).mp h)]
  have hindex : (text.length : Int) + (((line ++ newline).length : Int) - 1) - 1 =
      ((text ++ line).length : Int) - 1 := by
    simp [newline]
  have hbuff : text ++ (line ++ newline ++ nul) ++ tail =
      (text ++ line) ++ (newline ++ nul ++ tail) := by
    simp
  have hlength : (((line ++ newline).length : Int) - 1) = line.length := by simp [newline]
  rw [hindex, hbuff, readAt_append, hlength]
  cases (text ++ line).getLast? <;> rfl

theorem lineSegmentLength_eq {text line : Text} (hline : '\x00' ∉ line)
    (hbehind : ¬LooksBehind text line) (tail : Text) :
    lineSegmentLength (text ++ (line ++ newline ++ nul) ++ tail) text.length =
      if text = [] ∧ line = [] then none else some ((strip line).length : Int) := by
  rcases em ('#' ∈ line) with hcomment | hcomment
  · rw [lineSegmentLength_of_comment hline hcomment, if_neg]
    rintro ⟨-, rfl⟩
    cases hcomment
  rw [lineSegmentLength_of_no_comment hline hcomment]
  rcases eq_nil_or_concat line with rfl | ⟨init, c, hconcat⟩
  · rw [append_nil]
    cases hlast : text.getLast? with
    | none =>
      rw [if_pos ⟨getLast?_eq_none_iff.mp hlast, rfl⟩]
      rfl
    | some c =>
      have hc : c ≠ '\r' := by
        rintro rfl
        exact hbehind (.inr ⟨rfl, hlast⟩)
      rw [if_neg, map_some, if_neg hc]
      · rfl
      · rintro ⟨rfl, -⟩
        cases hlast
  · rw [concat_eq_append] at hconcat
    subst hconcat
    rw [if_neg (by simp), ← append_assoc, getLast?_concat, map_some]
    unfold strip
    rw [if_neg hcomment, getLast?_concat]
    rcases em (c = '\r') with rfl | hc
    · simp
    · rw [if_neg hc, if_neg]
      rintro h
      exact hc (some.inj h)

theorem getLast?_eq_backslash_iff {text line : Text} (hbehind : ¬LooksBehind text line) :
    (text ++ strip line).getLast? = some '\\' ↔ continued (strip line) := by
  rw [getLast?_append]
  unfold continued
  cases hlast : (strip line).getLast? with
  | none =>
    have hnil := getLast?_eq_none_iff.mp hlast
    constructor
    · intro h
      exact absurd (.inl ⟨hnil, h⟩) hbehind
    · intro h
      cases h
  | some c => exact Iff.rfl

theorem length_part {line : Text} (h : continued line) : (part line).length + 1 = line.length := by
  have hlength := congrArg length (part_of_continued h)
  rw [length_append, length_singleton] at hlength
  exact hlength.symm

theorem stripSegment_eq {state : State} {text line tail : Text} (hline : '\x00' ∉ line)
    (hbehind : ¬LooksBehind text line)
    (hbuff : state.buff = text ++ (line ++ newline ++ nul) ++ tail)
    (hindex : state.buffIndex = text.length) (hlength : state.lineLength = text.length) :
    ∃ tail', (text ++ strip line ++ nul ++ tail').length = state.buff.length ∧
      stripSegment state =
        if text ++ strip line = [] then none
        else if continued (strip line) then
          some (true, ⟨text ++ strip line ++ nul ++ tail', (text ++ part (strip line)).length,
            (text ++ part (strip line)).length⟩)
        else some (false, ⟨text ++ strip line ++ nul ++ tail', text.length,
          (text ++ strip line).length⟩) := by
  obtain ⟨rest, hrest⟩ := exists_strip_append line
  have hstripped : state.buff = (text ++ strip line) ++ (rest ++ newline ++ nul ++ tail) := by
    rw [hbuff]
    calc text ++ (line ++ newline ++ nul) ++ tail
        = text ++ ((strip line ++ rest) ++ newline ++ nul) ++ tail := by rw [← hrest]
      _ = (text ++ strip line) ++ (rest ++ newline ++ nul ++ tail) := by
        simp
  refine ⟨(rest ++ newline ++ nul ++ tail).drop 1, ?_, ?_⟩
  · rw [hstripped]
    simp [newline, nul]
    omega
  have hindex' : state.buffIndex + ((strip line).length : Int) =
      ((text ++ strip line).length : Int) := by
    rw [hindex, length_append, Int.natCast_add]
  unfold stripSegment
  have hsegment := lineSegmentLength_eq hline hbehind tail
  rw [← hbuff, ← hindex] at hsegment
  rw [hsegment]
  split
  · rename_i hnil
    obtain ⟨rfl, rfl⟩ := hnil
    rfl
  have hstore : storeAt state.buff ((text ++ strip line).length : Int) nul =
      some (text ++ strip line ++ nul ++ (rest ++ newline ++ nul ++ tail).drop 1) := by
    have hroom : nul.length ≤ (rest ++ newline ++ nul ++ tail).length := by
      simp only [length_append, nul, length_singleton]
      omega
    rw [hstripped, storeAt_append, if_pos hroom]
    rfl
  rw [bind_eq_bind, bind_some, hindex', hstore, bind_eq_bind,
    bind_some, append_assoc (text ++ strip line), readAt_append]
  cases hlast : (text ++ strip line).getLast? with
  | none =>
    rw [if_pos (getLast?_eq_none_iff.mp hlast)]
    rfl
  | some c =>
    have hne : text ++ strip line ≠ [] := by
      intro hnil
      rw [hnil] at hlast
      cases hlast
    rw [if_neg hne, bind_eq_bind, bind_some]
    rcases em (continued (strip line)) with hcontinued | hcontinued
    · have hc := (getLast?_eq_backslash_iff hbehind).mpr hcontinued
      rw [hlast, some.injEq] at hc
      have hpart := length_part hcontinued
      have hadd : state.lineLength + ((strip line).length : Int) - 1 =
          ((text ++ part (strip line)).length : Int) := by
        rw [hlength, length_append]
        omega
      have hadd' : ((text ++ strip line).length : Int) - 1 =
          ((text ++ part (strip line)).length : Int) := by
        omega
      rw [if_pos hc, if_pos hcontinued, hadd, hadd']
    · have hc : c ≠ '\\' := by
        rintro rfl
        exact hcontinued ((getLast?_eq_backslash_iff hbehind).mp hlast)
      have hadd : state.lineLength + ((strip line).length : Int) =
          ((text ++ strip line).length : Int) := by
        rw [hlength, length_append, Int.natCast_add]
      rw [if_neg hc, if_neg hcontinued, hadd, hindex]

theorem lineSegmentLength_le {text read : Text} (hread : '\x00' ∉ read) (tail : Text) {length : Int}
    (h : lineSegmentLength (text ++ (read ++ nul) ++ tail) text.length = some length) :
    length ≤ read.length := by
  have hstring : cString ((text ++ (read ++ nul) ++ tail).drop text.length) = read := by
    rw [append_assoc, drop_left, append_assoc]
    exact cString_append hread tail
  unfold lineSegmentLength at h
  rw [Int.toNat_natCast, hstring] at h
  dsimp only at h
  split at h
  · rw [← some.inj h]
    exact Int.ofNat_le.mpr (List.takeWhile_prefix _).length_le
  · obtain ⟨c, -, hlength⟩ := bind_eq_some_iff.mp h
    rw [← some.inj hlength]
    split <;> omega

theorem storeAt_eq_some {buff new result : Text} {index : Int}
    (h : storeAt buff index new = some result) :
    0 ≤ index ∧ index.toNat + new.length ≤ buff.length ∧
      result = buff.take index.toNat ++ new ++ buff.drop (index.toNat + new.length) := by
  unfold storeAt at h
  split at h
  · rename_i hindex
    exact ⟨hindex.1, hindex.2, (some.inj h).symm⟩
  · cases h

theorem readAt_eq_some {text tail : Text} {c : Char}
    (h : readAt (text ++ tail) ((text.length : Int) - 1) = some c) :
    ∃ init, text = init ++ [c] := by
  rw [readAt_append] at h
  exact getLast?_eq_some_iff.mp h

theorem stripSegment_bounds {state next : State} {text read tail : Text} {goesOn : Bool}
    (htext : '\x00' ∉ text) (hread : '\x00' ∉ read)
    (hbuff : state.buff = text ++ (read ++ nul) ++ tail)
    (hindex : state.buffIndex = text.length) (hlength : state.lineLength = text.length)
    (hsize : state.buff.length = propsLineBuffSize) (h : stripSegment state = some (goesOn, next)) :
    ∃ init c tail', next.buff = init ++ [c] ++ nul ++ tail' ∧ '\x00' ∉ init ++ [c] ∧
      next.buff.length = propsLineBuffSize ∧
      (goesOn = true → c = '\\' ∧ next.buffIndex = init.length ∧ next.lineLength = init.length) ∧
      (goesOn = false → next.lineLength = (init ++ [c]).length) := by
  simp only [stripSegment, bind_eq_bind, bind_eq_some_iff] at h
  obtain ⟨length, hsegment, buff, hstore, c, hc, hnext⟩ := h
  rw [hbuff, hindex] at hsegment
  have hle := lineSegmentLength_le hread tail hsegment
  obtain ⟨hnonneg, hroom, rfl⟩ := storeAt_eq_some hstore
  obtain ⟨e, he⟩ := Int.eq_ofNat_of_zero_le hnonneg
  rw [he, Int.toNat_natCast] at hroom hc hnext
  have hend : e ≤ (text ++ read).length := by
    rw [length_append]
    omega
  have htake : state.buff.take e = (text ++ read).take e := by
    rw [hbuff]
    calc (text ++ (read ++ nul) ++ tail).take e
        = ((text ++ read) ++ (nul ++ tail)).take e := by simp only [append_assoc]
      _ = (text ++ read).take e := take_append_of_le_length hend
  have hlengthTake : (state.buff.take e).length = e := by
    rw [length_take]
    omega
  have hlastChar : readAt (state.buff.take e ++ (nul ++ state.buff.drop (e + nul.length)))
      (((state.buff.take e).length : Int) - 1) = some c := by
    rw [hlengthTake, ← append_assoc]
    exact hc
  obtain ⟨init, hinit⟩ := readAt_eq_some hlastChar
  rw [hinit] at hlengthTake
  have hnoNul : '\x00' ∉ init ++ [c] := by
    rw [← hinit, htake]
    intro hmem
    exact noNul_append htext hread (mem_of_mem_take hmem)
  have hlineLength : state.lineLength + length = ((init ++ [c]).length : Int) := by
    rw [hlength, hlengthTake, ← he, hindex]
  rw [hinit, hlineLength] at hnext
  have hbuffSize : (init ++ [c] ++ nul ++ state.buff.drop (e + nul.length)).length =
      propsLineBuffSize := by
    rw [length_append, length_append, hlengthTake, length_drop]
    omega
  have hback : ((init ++ [c]).length : Int) - 1 = init.length := by
    rw [length_append, length_singleton]
    omega
  have hback' : (Int.ofNat e) - 1 = init.length := by
    rw [← hlengthTake]
    exact hback
  split at hnext
  · rename_i hbackslash
    cases hnext
    refine ⟨init, c, _, rfl, hnoNul, hbuffSize, fun _ => ⟨hbackslash, hback', hback⟩, ?_⟩
    intro hfalse
    cases hfalse
  · cases hnext
    refine ⟨init, c, _, rfl, hnoNul, hbuffSize, ?_, fun _ => rfl⟩
    intro htrue
    cases htrue

section

variable {σ : Type} {accept : σ → Text → Bool × σ} {parser : σ} {state : State}
  {text line : Text} {rest : List Text}

theorem not_atEof_newline (line : Text) : ¬atEof (line ++ newline) := by
  rintro ⟨-, h⟩
  exact h (getLast?_concat ..)

theorem Holds.nil {buff : Text} (h : buff.length = propsLineBuffSize) : Holds ⟨buff, 0, 0⟩ [] where
  buffIndex := rfl
  lineLength := rfl
  size := h
  holds := ⟨buff, rfl, fun hne => absurd rfl hne⟩

variable (h : Holds state text)

include h

theorem loop_of_overrun (hfits : ¬text.length + line.length + 1 < propsLineBuffSize) :
    textParseLoop accept parser state ((line ++ newline) :: rest) = none := by
  unfold textParseLoop
  rcases h.store (line ++ newline ++ nul) with ⟨-, hnone⟩ | ⟨hle, -⟩
  · rw [hnone]
  · simp only [length_append, newline, nul, length_singleton] at hle
    omega

theorem loop_of_fits (hline : '\x00' ∉ line)
    (hbehind : ¬LooksBehind text line)
    (hfits : text.length + line.length + 1 < propsLineBuffSize) :
    ∃ buff stripped tail, buff = text ++ strip line ++ nul ++ tail ∧
      buff.length = propsLineBuffSize ∧
      (stripped =
        if text ++ strip line = [] then none
        else if continued (strip line) then
          some (true, ⟨buff, (text ++ part (strip line)).length,
            (text ++ part (strip line)).length⟩)
        else some (false, ⟨buff, text.length, (text ++ strip line).length⟩)) ∧
      textParseLoop accept parser state ((line ++ newline) :: rest) =
        match stripped with
        | none => none
        | some (true, next) => textParseLoop accept parser next rest
        | some (false, next) =>
          if next.lineLength < 2 then textParseLoop accept parser ⟨next.buff, 0, 0⟩ rest
          else if (accept parser (cString next.buff)).1 then
            (textParseLoop accept (accept parser (cString next.buff)).2
              ⟨next.buff, 0, 0⟩ rest).map fun result =>
                (cString next.buff :: result.1, result.2)
          else some ([cString next.buff], false) := by
  rcases h.store (line ++ newline ++ nul) with ⟨hlt, -⟩ | ⟨-, tail, hstore, hsize⟩
  · simp only [length_append, newline, nul, length_singleton] at hlt
    omega
  obtain ⟨tail', hsize', hstripped⟩ :=
    @stripSegment_eq { state with buff := text ++ (line ++ newline ++ nul) ++ tail } _ _ _
      hline hbehind rfl h.buffIndex h.lineLength
  refine ⟨_, _, tail', rfl, hsize'.trans hsize, rfl, ?_⟩
  rw [textParseLoop, hstore]
  dsimp only
  rw [if_neg (not_atEof_newline line), hstripped]

theorem loop_continued (hline : '\x00' ∉ line)
    (hbehind : ¬LooksBehind text line) (hfits : text.length + line.length + 1 < propsLineBuffSize)
    (hcontinued : continued (strip line)) : ∃ next, Holds next (text ++ part (strip line)) ∧
      textParseLoop accept parser state ((line ++ newline) :: rest) =
        textParseLoop accept parser next rest := by
  obtain ⟨buff, stripped, tail, hbuff, hsize, hstripped, hloop⟩ :=
    @loop_of_fits σ accept parser state text line rest h hline hbehind hfits
  have hne : text ++ strip line ≠ [] := by
    rw [part_of_continued hcontinued]
    simp
  rw [if_neg hne, if_pos hcontinued] at hstripped
  rw [hloop, hstripped]
  refine ⟨_, ⟨rfl, rfl, hsize, '\\' :: '\x00' :: tail, ?_, fun _ => ⟨tail, rfl⟩⟩, rfl⟩
  rw [hbuff]
  calc text ++ strip line ++ nul ++ tail
      = text ++ (part (strip line) ++ ['\\']) ++ nul ++ tail := by
        rw [← part_of_continued hcontinued]
    _ = text ++ part (strip line) ++ '\\' :: '\x00' :: tail := by simp [nul]

theorem loop_empty (hline : '\x00' ∉ line) (hbehind : ¬LooksBehind text line)
    (hfits : text.length + line.length + 1 < propsLineBuffSize) (hnil : text ++ strip line = []) :
    textParseLoop accept parser state ((line ++ newline) :: rest) = none := by
  obtain ⟨buff, stripped, tail, -, -, hstripped, hloop⟩ :=
    @loop_of_fits σ accept parser state text line rest h hline hbehind hfits
  rw [if_pos hnil] at hstripped
  rw [hloop, hstripped]

omit h

theorem strip_noNul (hline : '\x00' ∉ line) : '\x00' ∉ strip line := by
  obtain ⟨rest, hrest⟩ := exists_strip_append line
  intro hmem
  rw [hrest] at hline
  exact hline (mem_append_left rest hmem)

theorem loop_line (h : Holds state text) (htext : '\x00' ∉ text) (hline : '\x00' ∉ line)
    (hbehind : ¬LooksBehind text line)
    (hfits : text.length + line.length + 1 < propsLineBuffSize)
    (hcontinued : ¬continued (strip line)) (hne : text ++ strip line ≠ []) :
    ∃ next, Holds next [] ∧
      textParseLoop accept parser state ((line ++ newline) :: rest) =
        if (text ++ strip line).length < 2 then textParseLoop accept parser next rest
        else if (accept parser (text ++ strip line)).1 then
          (textParseLoop accept (accept parser (text ++ strip line)).2 next rest).map
            fun result => ((text ++ strip line) :: result.1, result.2)
        else some ([text ++ strip line], false) := by
  obtain ⟨buff, stripped, tail, hbuff, hsize, hstripped, hloop⟩ :=
    @loop_of_fits σ accept parser state text line rest h hline hbehind hfits
  have hnoNul := noNul_append htext (strip_noNul hline)
  have hstring : cString buff = text ++ strip line := by
    rw [hbuff, append_assoc]
    exact cString_append hnoNul tail
  have hshort : ((text ++ strip line).length : Int) < 2 ↔ (text ++ strip line).length < 2 := by
    omega
  rw [if_neg hne, if_neg hcontinued] at hstripped
  rw [hloop, hstripped]
  simp only [hstring, hshort]
  exact ⟨⟨buff, 0, 0⟩, .nil hsize, rfl⟩

end

section

variable {σ : Type} {accept : σ → Text → Bool × σ}

theorem cString_length_lt {buff text tail : Text} (hbuff : buff = text ++ nul ++ tail)
    (htext : '\x00' ∉ text) : cString buff = text ∧ text.length < buff.length := by
  constructor
  · rw [hbuff, append_assoc]
    exact cString_append htext tail
  · rw [hbuff, length_append, length_append, nul, length_singleton]
    omega

theorem lineAtEof_bounds {state : State} {text tail : Text}
    (hbuff : state.buff = text ++ nul ++ tail) (htext : '\x00' ∉ text)
    (hlength : state.lineLength ≤ text.length) :
    ∀ line ∈ (lineAtEof state).1, 2 ≤ line.length ∧ line.length < state.buff.length := by
  obtain ⟨hstring, hlt⟩ := cString_length_lt hbuff htext
  unfold lineAtEof
  split
  · intro line hline
    cases hline
  · intro line hline
    rw [mem_singleton.mp hline, hstring]
    exact ⟨by omega, hlt⟩

theorem loop_bounds {texts : List Text} (hreads : ∀ read ∈ texts, '\x00' ∉ read)
    {parser : σ} {state : State} {text : Text} (h : Holds state text) (htext : '\x00' ∉ text)
    {found : List Text} {success : Bool}
    (hloop : textParseLoop accept parser state texts = some (found, success)) :
    ∀ line ∈ found, 2 ≤ line.length ∧ line.length < propsLineBuffSize := by
  induction texts generalizing parser state text found success with
  | nil =>
    have hfound : (lineAtEof state).1 = found := congrArg Prod.fst (some.inj hloop)
    rw [← hfound, ← h.size]
    rcases em (text = []) with rfl | hne
    · unfold lineAtEof
      rw [h.lineLength, if_pos (by decide)]
      intro line hline
      cases hline
    obtain ⟨tail, hbuff, htail⟩ := h.holds
    obtain ⟨tail', rfl⟩ := htail hne
    have hnoNul : '\x00' ∉ text ++ ['\\'] := noNul_append htext (by decide)
    have hwhole : state.buff = text ++ ['\\'] ++ nul ++ tail' := by
      rw [hbuff]
      simp [nul]
    refine lineAtEof_bounds hwhole hnoNul ?_
    rw [h.lineLength, length_append]
    omega
  | cons read texts ih =>
    have hread := hreads read mem_cons_self
    have hrest : ∀ read ∈ texts, '\x00' ∉ read :=
      fun read hmem => hreads read (mem_cons_of_mem _ hmem)
    unfold textParseLoop at hloop
    rcases h.store (read ++ nul) with ⟨-, hnone⟩ | ⟨-, tail, hstore, hsize⟩
    · rw [hnone] at hloop
      cases hloop
    rw [hstore] at hloop
    dsimp only at hloop
    have hsplit : text ++ (read ++ nul) ++ tail = text ++ read ++ nul ++ tail := by simp
    split at hloop
    · have hfound := congrArg Prod.fst (some.inj hloop)
      have hnoNul := noNul_append htext hread
      dsimp only at hfound
      rw [← hfound, ← hsize]
      refine lineAtEof_bounds hsplit hnoNul ?_
      rw [h.lineLength, length_append]
      omega
    split at hloop
    · cases hloop
    · rename_i next hstripped
      obtain ⟨init, c, tail', hbuff, hnoNul, hsize', hgoesOn, -⟩ :=
        @stripSegment_bounds { state with buff := text ++ (read ++ nul) ++ tail } next text
          read tail true htext hread rfl h.buffIndex h.lineLength hsize hstripped
      obtain ⟨rfl, hindex, hlength⟩ := hgoesOn rfl
      have hinit : next.buff = init ++ '\\' :: '\x00' :: tail' := by
        rw [hbuff]
        simp [nul]
      have hnext : Holds next init :=
        ⟨hindex, hlength, hsize', _, hinit, fun _ => ⟨tail', rfl⟩⟩
      exact ih hrest hnext (fun hmem => hnoNul (mem_append_left _ hmem)) hloop
    rename_i next hstripped
    obtain ⟨init, c, tail', hbuff, hnoNul, hsize', -, hends⟩ :=
      @stripSegment_bounds { state with buff := text ++ (read ++ nul) ++ tail } next text
        read tail false htext hread rfl h.buffIndex h.lineLength hsize hstripped
    obtain ⟨hstring, hlt⟩ := cString_length_lt hbuff hnoNul
    have hnext : Holds ⟨next.buff, 0, 0⟩ [] := .nil hsize'
    split at hloop
    · exact ih hrest hnext not_mem_nil hloop
    rename_i hlong
    rw [hends rfl] at hlong
    have hline : 2 ≤ (cString next.buff).length ∧
        (cString next.buff).length < propsLineBuffSize := by
      rw [hstring, ← hsize']
      exact ⟨by omega, hlt⟩
    split at hloop
    · obtain ⟨result, hresult, hfound⟩ := map_eq_some_iff.mp hloop
      obtain ⟨rfl, -⟩ := Prod.mk.inj hfound
      exact forall_mem_cons.mpr ⟨hline, ih hrest hnext not_mem_nil hresult⟩
    · cases hloop
      intro line hmem
      rw [mem_singleton.mp hmem]
      exact hline

end

section

variable {σ : Type} {accept : σ → Text → Bool × σ} {parser : σ} {state : State} {text : Text}

def lastRead (last : Text) : List Text := if last = [] then [] else [last]

theorem lineAtEof_eq {buff tail : Text} {index : Int} (htext : '\x00' ∉ text)
    (hbuff : buff = text ++ nul ++ tail) {length : Int} :
    lineAtEof ⟨buff, index, length⟩ = if length < 2 then ([], true) else ([text], true) := by
  unfold lineAtEof
  rw [hbuff, append_assoc]
  rw [show cString (text ++ (nul ++ tail)) = text from cString_append htext tail]

theorem loop_nil (h : Holds state text) (htext : '\x00' ∉ text) :
    textParseLoop accept parser state [] =
      some (if text.length < 2 then ([], true) else ([text ++ ['\\']], true)) := by
  obtain ⟨tail, hbuff, htail⟩ := h.holds
  unfold textParseLoop lineAtEof
  rw [h.lineLength]
  rcases lt_or_ge text.length 2 with hlt | hge
  · rw [if_pos hlt, if_pos (by omega)]
  have hne : text ≠ [] := by
    rintro rfl
    cases hge
  obtain ⟨tail', rfl⟩ := htail hne
  have hnoNul : '\x00' ∉ text ++ ['\\'] := noNul_append htext (by decide)
  have hstring : cString state.buff = text ++ ['\\'] := by
    rw [hbuff]
    calc cString (text ++ '\\' :: '\x00' :: tail')
        = cString ((text ++ ['\\']) ++ '\x00' :: tail') := by simp
      _ = text ++ ['\\'] := cString_append hnoNul tail'
  rw [if_neg (by omega), if_neg (by omega), hstring]

theorem loop_last {last : Text} (h : Holds state text) (htext : '\x00' ∉ text)
    (hlast : '\x00' ∉ last ∧ '\n' ∉ last) (hlength : last.length + 1 < udipropsLineMaxlen) :
    textParseLoop accept parser state [last] =
      if text.length + last.length < propsLineBuffSize then
        some (if text.length < 2 then ([], true) else ([text ++ last], true))
      else none := by
  have hatEof : atEof last := by
    refine ⟨by omega, ?_⟩
    intro hmem
    exact hlast.2 (mem_of_getLast? hmem)
  unfold textParseLoop
  rcases h.store (last ++ nul) with ⟨hlt, hnone⟩ | ⟨hle, tail, hstore, -⟩
  · rw [hnone, if_neg]
    simp only [length_append, nul, length_singleton] at hlt
    omega
  simp only [length_append, nul, length_singleton] at hle
  have hnoNul := noNul_append htext hlast.1
  rw [hstore, if_pos (by omega)]
  dsimp only
  have hbuff : text ++ (last ++ nul) ++ tail = text ++ last ++ nul ++ tail := by simp
  rw [if_pos hatEof, lineAtEof_eq hnoNul hbuff, h.lineLength]
  rcases lt_or_ge text.length 2 with hlt | hge
  · rw [if_pos hlt, if_pos (by omega)]
  · rw [if_neg (by omega), if_neg (by omega)]

end

section

variable {σ : Type} {accept : σ → Text → Bool × σ} {last : Text}

theorem handed_singleton (parser : σ) (line : Text) :
    handed accept parser [line] = ([line], (accept parser line).1) := by
  unfold handed handed
  cases (accept parser line).1 <;> rfl

variable {lines : List Text}

theorem logicalLines_of_continued {text line : Text}
    (h : continued (strip line)) : logicalLines last text (line :: lines) =
      logicalLines last (text ++ part (strip line)) lines := by
  rw [logicalLines, if_pos h]

theorem logicalLines_of_not_continued {text line : Text}
    (h : ¬continued (strip line)) (hne : text ++ strip line ≠ []) :
    logicalLines last text (line :: lines) =
      (text ++ strip line) :: logicalLines last [] lines := by
  rw [logicalLines, if_neg h, part_of_not_continued h, unlessEmpty, if_neg hne]
  rfl

theorem part_noNul {line : Text} (hline : '\x00' ∉ line) : '\x00' ∉ part (strip line) := by
  intro hmem
  unfold part at hmem
  split at hmem
  · exact strip_noNul hline (dropLast_subset _ hmem)
  · exact strip_noNul hline hmem

theorem loop_end (hlast : '\x00' ∉ last ∧ '\n' ∉ last)
    (hlength : last.length + 1 < udipropsLineMaxlen) {parser : σ} {state : State} {text : Text}
    (h : Holds state text) (htext : '\x00' ∉ text) :
    textParseLoop accept parser state (lastRead last) =
      if text.length + last.length < propsLineBuffSize ∨ last = [] then
        some (if text.length < 2 then ([], true)
          else ([text ++ (if last = [] then ['\\'] else last)], true))
      else none := by
  unfold lastRead
  rcases em (last = []) with hnil | hne
  · rw [if_pos hnil, loop_nil h htext, if_pos (Or.inr hnil), if_pos hnil]
  · rw [if_neg hne, loop_last h htext hlast hlength, if_neg hne]
    simp [hne]

theorem loop_cons {parser : σ} {state : State} {text line : Text}
    {rest : List Text} (h : Holds state text) (htext : '\x00' ∉ text) (hline : '\x00' ∉ line)
    (hbehind : ¬LooksBehind text line) :
    ((¬text.length + line.length + 1 < propsLineBuffSize ∨
        ¬continued (strip line) ∧ text ++ strip line = []) ∧
      textParseLoop accept parser state ((line ++ newline) :: rest) = none) ∨
    (text.length + line.length + 1 < propsLineBuffSize ∧ continued (strip line) ∧
      ∃ next, Holds next (text ++ part (strip line)) ∧
        textParseLoop accept parser state ((line ++ newline) :: rest) =
          textParseLoop accept parser next rest) ∨
    (text.length + line.length + 1 < propsLineBuffSize ∧ ¬continued (strip line) ∧
      text ++ strip line ≠ [] ∧
      ∃ next, Holds next [] ∧
        textParseLoop accept parser state ((line ++ newline) :: rest) =
          if (text ++ strip line).length < 2 then textParseLoop accept parser next rest
          else if (accept parser (text ++ strip line)).1 then
            (textParseLoop accept (accept parser (text ++ strip line)).2 next rest).map
              fun result => ((text ++ strip line) :: result.1, result.2)
          else some ([text ++ strip line], false)) := by
  rcases em (text.length + line.length + 1 < propsLineBuffSize) with hfits | hfits
  · rcases em (continued (strip line)) with hcontinued | hcontinued
    · exact .inr (.inl ⟨hfits, hcontinued, loop_continued h hline hbehind hfits hcontinued⟩)
    · rcases em (text ++ strip line = []) with hnil | hne
      · exact .inl ⟨.inr ⟨hcontinued, hnil⟩, loop_empty h hline hbehind hfits hnil⟩
      · refine .inr (.inr ⟨hfits, hcontinued, hne, ?_⟩)
        exact loop_line h htext hline hbehind hfits hcontinued hne
  · exact .inl ⟨.inl hfits, loop_of_overrun h hfits⟩

theorem map_cons_eq_some_iff {line : Text} {outcome : Option (List Text × Bool)}
    {result : List Text × Bool} :
    outcome.map (fun result => (line :: result.1, result.2)) =
      some (line :: result.1, result.2) ↔ outcome = some result := by
  constructor
  · intro h
    obtain ⟨result', rfl, heq⟩ := map_eq_some_iff.mp h
    obtain ⟨hfound, hsuccess⟩ := Prod.mk.inj heq
    rw [Prod.ext (cons.inj hfound).2 hsuccess]
  · rintro rfl
    rfl

theorem end_iff (hlast : '\x00' ∉ last ∧ '\n' ∉ last)
    (hlength : last.length + 1 < udipropsLineMaxlen) {parser : σ} {state : State} {text : Text}
    (h : Holds state text) (htext : '\x00' ∉ text) :
    textParseLoop accept parser state (lastRead last) =
        some (handed accept parser (logicalLines last text [])) ↔
      SoundEnd accept last parser text := by
  rw [loop_end hlast hlength h htext]
  unfold SoundEnd logicalLines unlessEmpty
  rcases em (last = []) with rfl | hne
  · rw [if_pos (.inr rfl), if_pos rfl, if_pos rfl, show part (strip []) = [] from rfl,
      append_nil, some.injEq]
    rcases em (text = []) with rfl | htext'
    · exact iff_of_true rfl rfl
    rw [if_neg htext', handed_singleton, iff_false_right htext']
    split
    · intro heq
      cases (Prod.mk.inj heq).1
    · intro heq
      have hlength := congrArg length (cons.inj (Prod.mk.inj heq).1).1
      rw [length_append, length_singleton] at hlength
      omega
  simp only [hne, or_false, if_false]
  rw [and_iff_right hlength]
  rcases em (text.length + last.length < propsLineBuffSize) with hfits | hfits
  · rw [if_pos hfits, and_iff_right hfits, some.injEq]
    rcases lt_or_ge text.length 2 with hshort | hlong
    · rw [if_pos hshort, if_pos hshort]
      rcases em (text ++ part (strip last) = []) with hnil | hsome
      · rw [if_pos hnil]
        exact iff_of_true rfl hnil
      · rw [if_neg hsome, handed_singleton]
        refine iff_of_false ?_ hsome
        intro heq
        cases (Prod.mk.inj heq).1
    have hsome : text ++ part (strip last) ≠ [] := by
      intro hnil
      rw [(append_eq_nil_iff.mp hnil).1] at hlong
      cases hlong
    have hlt : ¬text.length < 2 := Nat.not_lt.mpr hlong
    rw [if_neg hlt, if_neg hlt, if_neg hsome, handed_singleton]
    constructor
    · intro heq
      obtain ⟨hline, haccept⟩ := Prod.mk.inj heq
      have hpart := append_cancel_left (cons.inj hline).1
      rw [← hpart] at haccept
      exact ⟨hpart.symm, haccept.symm⟩
    · rintro ⟨hpart, haccept⟩
      rw [hpart, haccept]
  · rw [if_neg hfits]
    refine iff_of_false (some_ne_none _).symm ?_
    rintro ⟨hfits', -⟩
    exact hfits hfits'

end

theorem physicalLines_cons (c : Char) (file : Text) :
    physicalLines (c :: file) =
      if c = '\n' then ([] :: (physicalLines file).1, (physicalLines file).2)
      else
        match (physicalLines file).1 with
        | [] => ([], c :: (physicalLines file).2)
        | line :: lines => ((c :: line) :: lines, (physicalLines file).2) := rfl

theorem physicalLines_mem (file : Text) :
    (∀ line ∈ (physicalLines file).1, ∀ c ∈ line, c ∈ file ∧ c ≠ '\n') ∧
      ∀ c ∈ (physicalLines file).2, c ∈ file ∧ c ≠ '\n' := by
  induction file with
  | nil =>
    constructor
    · intro line hline
      cases hline
    · intro c hc
      cases hc
  | cons head file ih =>
    obtain ⟨hlines, hlast⟩ := ih
    have hcons : ∀ {c}, c ∈ file ∧ c ≠ '\n' → c ∈ head :: file ∧ c ≠ '\n' :=
      fun h => ⟨mem_cons_of_mem _ h.1, h.2⟩
    rw [physicalLines_cons]
    split
    · constructor
      · intro line hline c hc
        rcases mem_cons.mp hline with rfl | hline
        · cases hc
        · exact hcons (hlines line hline c hc)
      · intro c hc
        exact hcons (hlast c hc)
    rename_i hhead
    split
    · constructor
      · intro line hline
        cases hline
      · intro c hc
        rcases mem_cons.mp hc with rfl | hc
        · exact ⟨mem_cons_self, hhead⟩
        · exact hcons (hlast c hc)
    rename_i first lines heq
    rw [heq] at hlines
    constructor
    · intro line hline c hc
      rcases mem_cons.mp hline with rfl | hline
      · rcases mem_cons.mp hc with rfl | hc
        · exact ⟨mem_cons_self, hhead⟩
        · exact hcons (hlines first mem_cons_self c hc)
      · exact hcons (hlines line (mem_cons_of_mem _ hline) c hc)
    · intro c hc
      exact hcons (hlast c hc)

/-- The lines with their newlines, and what follows them. -/
def joined (last : Text) : List Text → Text
  | [] => last
  | line :: lines => line ++ '\n' :: joined last lines

theorem joined_physicalLines (file : Text) :
    joined (physicalLines file).2 (physicalLines file).1 = file := by
  induction file with
  | nil => rfl
  | cons c file ih =>
    rw [physicalLines_cons]
    split
    · rename_i hc
      rw [hc, joined, ih]
      rfl
    cases heq : (physicalLines file).1 with
    | nil =>
      rw [heq] at ih
      exact congrArg (c :: ·) ih
    | cons line lines =>
      rw [heq] at ih
      exact congrArg (c :: ·) ih

theorem joined_noNul {last : Text} {lines : List Text} (hlast : '\x00' ∉ last)
    (hlines : ∀ line ∈ lines, '\x00' ∉ line) : '\x00' ∉ joined last lines := by
  induction lines with
  | nil => exact hlast
  | cons line lines ih =>
    obtain ⟨hline, hrest⟩ := forall_mem_cons.mp hlines
    refine noNul_append hline ?_
    rw [mem_cons]
    rintro (hnewline | hmem)
    · cases hnewline
    · exact ih hrest hmem

theorem reads_line {line : Text} (hline : '\n' ∉ line) {room : Nat} (hroom : line.length < room)
    (file : Text) : reads room (line ++ '\n' :: file) =
      (line ++ newline) :: reads (udipropsLineMaxlen - 1) file := by
  induction line generalizing room with
  | nil =>
    rfl
  | cons c line ih =>
    obtain ⟨hc, hline⟩ := ne_and_not_mem_of_not_mem_cons hline
    rw [length_cons] at hroom
    rw [cons_append, reads, if_neg (not_or.mpr ⟨hc.symm, by omega⟩), ih hline (by omega)]
    rfl

theorem reads_last {last : Text} (hlast : '\n' ∉ last) {room : Nat} (hroom : last.length < room) :
    reads room last = lastRead last := by
  induction last generalizing room with
  | nil => rfl
  | cons c last ih =>
    obtain ⟨hc, hlast⟩ := ne_and_not_mem_of_not_mem_cons hlast
    rw [length_cons] at hroom
    rw [reads, if_neg (not_or.mpr ⟨hc.symm, by omega⟩), ih hlast (by omega)]
    cases last <;> rfl

theorem mem_of_mem_reads (file : Text) {room : Nat} :
    ∀ read ∈ reads room file, ∀ c ∈ read, c ∈ file := by
  induction file generalizing room with
  | nil =>
    intro read hread
    cases hread
  | cons head file ih =>
    intro read hread c hc
    unfold reads at hread
    split at hread
    · rcases mem_cons.mp hread with rfl | hread
      · exact mem_singleton.mp hc ▸ mem_cons_self
      · exact mem_cons_of_mem _ (ih read hread c hc)
    split at hread
    · rw [mem_singleton.mp hread] at hc
      exact mem_singleton.mp hc ▸ mem_cons_self
    rename_i first rest heq
    rcases mem_cons.mp hread with rfl | hread
    · rcases mem_cons.mp hc with rfl | hc
      · exact mem_cons_self
      · exact mem_cons_of_mem _ (ih first (heq ▸ mem_cons_self) c hc)
    · exact mem_cons_of_mem _ (ih read (heq ▸ mem_cons_of_mem _ hread) c hc)

theorem reads_noNul {file : Text} (h : '\x00' ∉ file) {room : Nat} :
    ∀ read ∈ reads room file, '\x00' ∉ read :=
  fun read hread hnul => h (mem_of_mem_reads file read hread _ hnul)

section

variable {σ : Type} {accept : σ → Text → Bool × σ} {last : Text} {lines : List Text}

theorem Sound.plain {parser : σ} {text : Text} (h : Sound accept last parser text lines) :
    Plain accept last parser text lines := by
  induction lines generalizing parser text with
  | nil =>
    unfold Sound SoundEnd at h
    unfold Plain
    split at h
    · rename_i hnil
      rw [hnil]
      decide
    · exact h.1
  | cons line lines ih =>
    obtain ⟨hplain, -, hrest⟩ := h
    refine ⟨hplain, ?_⟩
    split at hrest
    · rename_i hcontinued
      rw [if_pos hcontinued]
      exact ih hrest
    · rename_i hcontinued
      rw [if_neg hcontinued]
      exact fun haccept => ih (hrest.2 haccept)

theorem loop_iff_sound (hlast : '\x00' ∉ last ∧ '\n' ∉ last)
    (hlines : ∀ line ∈ lines, '\x00' ∉ line ∧ '\n' ∉ line) {parser : σ} {state : State}
    {text : Text} (h : Holds state text) (htext : '\x00' ∉ text)
    (hplain : Plain accept last parser text lines) :
    textParseLoop accept parser state (reads (udipropsLineMaxlen - 1) (joined last lines)) =
        some (handed accept parser (logicalLines last text lines)) ↔
      Sound accept last parser text lines := by
  induction lines generalizing parser state text with
  | nil =>
    rw [joined, reads_last hlast.2 (Nat.lt_sub_of_add_lt hplain)]
    exact end_iff hlast hplain h htext
  | cons line lines ih =>
    obtain ⟨⟨hline, hnewline⟩, hrest⟩ := forall_mem_cons.mp hlines
    obtain ⟨hplainLine, hplain⟩ := hplain
    rw [joined, reads_line hnewline (Nat.lt_sub_of_add_lt hplainLine.1), Sound,
      and_iff_right hplainLine]
    rcases loop_cons h htext hline hplainLine.2 with ⟨hwrong, heq⟩ |
      ⟨hfits, hcontinued, next, hnext, heq⟩ | ⟨hfits, hcontinued, hne, next, hnext, heq⟩
    · rw [heq]
      constructor
      · intro hnone
        cases hnone
      · rintro ⟨hfits, hsound⟩
        rcases hwrong with hwrong | ⟨hcontinued, hnil⟩
        · exact absurd hfits hwrong
        · rw [if_neg hcontinued, hnil] at hsound
          exact absurd hsound.1 (by decide)
    · rw [if_pos hcontinued] at hplain
      rw [heq, if_pos hcontinued, logicalLines_of_continued hcontinued]
      rw [ih hrest hnext (noNul_append htext (part_noNul hline)) hplain]
      exact (and_iff_right hfits).symm
    rw [if_neg hcontinued] at hplain
    rw [heq, if_neg hcontinued, logicalLines_of_not_continued hcontinued hne]
    rcases lt_or_ge (text ++ strip line).length 2 with hshort | hlong
    · -- The line is dropped, and no line of its length is handed over later.
      rw [if_pos hshort]
      constructor
      · intro hloop
        have hmem : text ++ strip line ∈
            (handed accept parser ((text ++ strip line) :: logicalLines last [] lines)).1 := by
          unfold handed
          split <;> exact mem_cons_self
        have hnoNul := joined_noNul hlast.1 fun line hmem => (hrest line hmem).1
        have hbounds := loop_bounds (reads_noNul hnoNul) hnext not_mem_nil hloop _ hmem
        omega
      · rintro ⟨-, hlong, -⟩
        omega
    · rw [if_neg (by omega), and_iff_right hfits, and_iff_right hlong, handed]
      split
      · rename_i haccept
        rw [map_cons_eq_some_iff, ih hrest hnext not_mem_nil (hplain haccept)]
        exact (imp_iff_right haccept).symm
      rename_i haccept
      constructor
      · intro _ htrue
        exact absurd htrue haccept
      · intro _
        rfl

end

section

variable {σ : Type}

theorem Correct.bounds {accept : σ → Text → Bool × σ} {parser : σ} {file : TextFile}
    (h : Correct accept parser file) : ∀ line ∈ (handed accept parser
        (logicalLines (physicalLines file.chars).2 [] (physicalLines file.chars).1)).1,
      2 ≤ line.length ∧ line.length < propsLineBuffSize := by
  exact loop_bounds (reads_noNul file.noNul) (.nil length_replicate) not_mem_nil h

theorem correct_iff_of_plain {accept : σ → Text → Bool × σ} {parser : σ} {file : TextFile}
    (hplain : Plain accept (physicalLines file.chars).2 parser [] (physicalLines file.chars).1) :
    Correct accept parser file ↔
      Sound accept (physicalLines file.chars).2 parser [] (physicalLines file.chars).1 := by
  obtain ⟨hmem, hmemLast⟩ := physicalLines_mem file.chars
  have hlines : ∀ line ∈ (physicalLines file.chars).1, '\x00' ∉ line ∧ '\n' ∉ line :=
    fun line hline => ⟨fun hnul => file.noNul (hmem line hline _ hnul).1,
      fun hnewline => (hmem line hline _ hnewline).2 rfl⟩
  have hlast : '\x00' ∉ (physicalLines file.chars).2 ∧ '\n' ∉ (physicalLines file.chars).2 :=
    ⟨fun hnul => file.noNul (hmemLast _ hnul).1, fun hnewline => (hmemLast _ hnewline).2 rfl⟩
  have hstart : Holds ⟨replicate propsLineBuffSize '\x00', 0, 0⟩ [] :=
    .nil length_replicate
  have hloop := loop_iff_sound hlast hlines hstart not_mem_nil hplain
  rwa [joined_physicalLines] at hloop

/-- A loader that is correct hands over no line of one character and none that is longer than the
buffer, and on a sound file it is correct. When the physical lines are plain up to the first logical
line that is not accepted, no other file is loaded correctly. -/
theorem correct_iff_sound (accept : σ → Text → Bool × σ) (parser : σ) (file : TextFile) :
    (Correct accept parser file → ∀ line ∈ (handed accept parser
        (logicalLines (physicalLines file.chars).2 [] (physicalLines file.chars).1)).1,
      2 ≤ line.length ∧ line.length < propsLineBuffSize) ∧
    (Sound accept (physicalLines file.chars).2 parser [] (physicalLines file.chars).1 →
      Correct accept parser file) ∧
    (Plain accept (physicalLines file.chars).2 parser [] (physicalLines file.chars).1 →
      Correct accept parser file →
        Sound accept (physicalLines file.chars).2 parser [] (physicalLines file.chars).1) :=
  ⟨Correct.bounds, fun hsound => (correct_iff_of_plain hsound.plain).mpr hsound,
    fun hplain => (correct_iff_of_plain hplain).mp⟩

end

def acceptAll : Unit → Text → Bool × Unit := fun _ _ => (true, ())

def joinedFile : TextFile where
  chars := "ab\\\nc # d\n".toList
  noNul := by decide

theorem correct_iff_sound_joined : Correct acceptAll () joinedFile := by
  refine (correct_iff_sound acceptAll () joinedFile).2.1 ?_
  have hplain : PlainLine [] "ab\\".toList ∧ PlainLine "ab".toList "c # d".toList := by
    unfold PlainLine LooksBehind
    decide
  exact ⟨hplain.1, by decide, hplain.2, by decide, by decide, fun _ => rfl⟩

/-- The only line of the file does not end with a newline: it is not handed over, and success is
reported. -/
theorem unterminated_not_correct :
    ¬Correct acceptAll () ⟨"name 1".toList, by decide⟩ := by
  unfold Correct
  decide +kernel

end Zambesii.TextParse
