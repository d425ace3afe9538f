import Zambesii.NulText

/-!
The name and the arguments of a process, out of its command line.
-/

namespace Zambesii.ProcessNames

open KernelTypes List NulText Option

def processFullnameMaxlen : Nat := 2000

def processArgumentsMaxlen : Nat := 32700

/-- The loop for a name without quotes: `i` and `nEscapedSpaces` where it ends. -/
def scanFrom (commandLine : List Char) (i nEscapedSpaces : Nat) : (left : Nat) → Option (Nat × Nat)
  | 0 => do
      let _ ← commandLine[i]?
      some (i, nEscapedSpaces)
  | left + 1 => do
      let char ← commandLine[i]?
      if char = nul then some (i, nEscapedSpaces)
      else if char = ' ' then
        if i = 0 then some (i, nEscapedSpaces)
        else do
          let before ← commandLine[i - 1]?
          if before = '\\' then scanFrom commandLine (i + 1) (nEscapedSpaces + 1) left
          else some (i, nEscapedSpaces)
      else scanFrom commandLine (i + 1) nEscapedSpaces left

structure Extent where
  start : Nat
  length : Nat
  nEscapedSpaces : Nat

/-- The part of `generateFullName` for a name in quotes; `start` is behind them. -/
def findQuoted (commandLine : List Char) (start : Nat) (quote : Char) :
    Option (Except Kerror Extent) := do
  match ← getIndexOfNext commandLine start quote (processFullnameMaxlen - 1) with
  | .error err => some (.error err)
  | .ok length => do
      let after ← commandLine[start + length + 1]?
      if after ≠ ' ' ∧ after ≠ nul then some (.error .invalidResourceName)
      else some (.ok ⟨start, length, 0⟩)

def findPlain (commandLine : List Char) : Option (Except Kerror Extent) := do
  let (i, nEscapedSpaces) ← scanFrom commandLine 0 0 processFullnameMaxlen
  let last ← commandLine[i]?
  if i = processFullnameMaxlen ∧ last ≠ ' ' ∧ last ≠ nul then
    some (.error .invalidResourceName)
  else some (.ok ⟨0, i, nEscapedSpaces⟩)

/-- The first part of `generateFullName`. A single quote is skipped, and then a double one. -/
def findName (commandLine : List Char) : Option (Except Kerror Extent) := do
  let first ← commandLine[0]?
  let start := if first = '\'' then 1 else 0
  let second ← commandLine[start]?
  if second = '"' then findQuoted commandLine (start + 1) '"'
  else if first = '\'' then findQuoted commandLine start '\''
  else findPlain commandLine

/-- The condition in the loop which copies the name. Nothing is read in front of the command
line. -/
def isEscapedSpace (commandLine : List Char) (name : Extent) (i k : Nat) (char : Char) :
    Option Bool :=
  if char = ' ' then
    if name.start + i = 0 then none
    else do
      let before ← commandLine[name.start + i - 1]?
      some (decide (before = '\\' ∧ k < name.nEscapedSpaces))
  else some false

def copyFrom (commandLine : List Char) (name : Extent) (i j k : Nat) (fullName : List Char) :
    (left : Nat) → Option (List Char)
  | 0 => some fullName
  | left + 1 => do
      let char ← commandLine[name.start + i]?
      if char = nul then some fullName
      else do
        let escaped ← isEscapedSpace commandLine name i k char
        let j := if escaped then j - 1 else j
        let fullName ← put fullName j [char]
        copyFrom commandLine name (i + 1) (j + 1) (if escaped then k + 1 else k) fullName left

def allocation (old : Nat → Char) (size : Nat) : List Char :=
  (List.range size).map old

def argumentsStart (commandLine : List Char) (name : Extent) : Option Nat := do
  let last ← commandLine[name.start + name.length]?
  if last = nul then some name.length
  else if last = ' ' then some (name.length + 1)
  else do
    let after ← commandLine[name.start + name.length + 1]?
    if after = ' ' then some (name.length + 2 + 1) else some (name.length + 1 + 1)

def generateFullName (commandLine : List Char) (kernel allocated : Bool) (old : Nat → Char) :
    Option (Except Kerror (List Char × Nat)) := do
  match ← findName commandLine with
  | .error err => some (.error err)
  | .ok name =>
    if name.length = 0 then some (.error .invalidResourceName)
    else if kernel = false ∧ allocated = false then some (.error .memoryNomem)
    else do
      let fullName := allocation old (if kernel then 256 + 1 else name.length + 1)
      let fullName ← copyFrom commandLine name 0 0 0 fullName name.length
      let fullName ← put fullName (name.length - name.nEscapedSpaces) [nul]
      let start ← argumentsStart commandLine name
      some (.ok (fullName, start))

def maxLength (kernel : Bool) : Nat :=
  if kernel then 2048 else processArgumentsMaxlen

def generateArguments (commandLine : List Char) (argumentString : Nat) (kernel allocated : Bool)
    (old : Nat → Char) : Option (Except Kerror (List Char)) := do
  let length ← strnlen8 commandLine argumentString (maxLength kernel)
  let last ← commandLine[argumentString + length]?
  if length = maxLength kernel ∧ last ≠ nul then some (.error .limitOverflowed)
  else if kernel = false ∧ allocated = false then some (.error .memoryNomem)
  else do
    let arguments := allocation old (if kernel then 2048 + 1 else length + 1)
    let arguments ← put arguments 0 ((commandLine.drop argumentString).take length)
    let arguments ← put arguments length [nul]
    some (.ok arguments)

structure Allocations where
  fullName : Bool
  arguments : Bool

/-- The two calls of `ProcessStream::initialize`: the name and the arguments, as texts. -/
def generate (commandLine : List Char) (kernel : Bool) (allocations : Allocations)
    (old : Nat → Char) : Option (Except Kerror (List Char × List Char)) := do
  match ← generateFullName commandLine kernel allocations.fullName old with
  | .error err => some (.error err)
  | .ok (fullName, start) =>
    match ← generateArguments commandLine start kernel allocations.arguments old with
    | .error err => some (.error err)
    | .ok arguments => some (.ok (contents fullName, contents arguments))

structure CommandLine where
  chars : List Char
  nul_notMem : nul ∉ chars

def CommandLine.memory (line : CommandLine) : List Char :=
  line.chars ++ [nul]

def plainName (escaped : Bool) : List Char → List Char
  | [] => []
  | char :: rest =>
    if char = ' ' ∧ escaped = false then [] else char :: plainName (char = '\\') rest

def unescape : List Char → List Char
  | [] => []
  | char :: rest =>
    if char = '\\' ∧ rest.head? = some ' ' then unescape rest else char :: unescape rest

def behind (name : List Char) : List Char → Option (List Char × List Char)
  | [] => some (name, [])
  | char :: arguments => if char = ' ' then some (name, arguments) else none

def quoted (quote : Char) (text : List Char) : Option (List Char × List Char) :=
  let name := text.takeWhile fun char => char ≠ quote
  if quote ∉ text ∨ name = [] ∨ processFullnameMaxlen < name.length + 2 then none
  else behind name (text.drop (name.length + 1))

def plain (text : List Char) : Option (List Char × List Char) :=
  let name := plainName false text
  if name = [] ∨ processFullnameMaxlen < name.length then none
  else some (unescape name, text.drop (name.length + 1))

def grammar (text : List Char) : Option (List Char × List Char) :=
  match text with
  | '\'' :: rest => quoted '\'' rest
  | '"' :: rest => quoted '"' rest
  | _ => plain text

def Refused (kernel : Bool) (allocations : Allocations) : Prop :=
  kernel = false ∧ (allocations.fullName = false ∨ allocations.arguments = false)

def Follows (line : CommandLine) (kernel : Bool) (allocations : Allocations) (old : Nat → Char) :
    Prop :=
  (∀ parts, ¬ Refused kernel allocations → grammar line.chars = some parts →
      generate line.memory kernel allocations old = some (.ok parts)) ∧
    (Refused kernel allocations ∨ grammar line.chars = none →
      ∃ err, generate line.memory kernel allocations old = some (.error err))

def Fits (kernel : Bool) (name : List Char) : Prop :=
  kernel = true → name.length ≤ 256

def Overlong (kernel : Bool) (name : List Char) (length : Nat) : Prop :=
  Fits kernel name ∧ maxLength kernel < length

def EscapedAtLimit (text : List Char) : Prop :=
  text.head? ≠ some '\'' ∧ text.head? ≠ some '"' ∧
    processFullnameMaxlen < (plainName false text).length ∧
      text[processFullnameMaxlen]? = some ' '

/-- The name and the arguments have room, the line does not begin with both quotes, and its name
does not reach the limit at an escaped space; or an error is due, and another one comes. -/
def Good (line : CommandLine) (kernel : Bool) (allocations : Allocations) : Prop :=
  ¬ Refused kernel allocations →
    (∀ parts, grammar line.chars = some parts →
        Fits kernel parts.1 ∧ parts.2.length ≤ maxLength kernel) ∧
      (∀ rest, line.chars = '\'' :: '"' :: rest → grammar line.chars = none ∧
        ∀ parts, quoted '"' rest = some parts →
          Overlong kernel parts.1 (parts.2.length + 1)) ∧
      (EscapedAtLimit line.chars →
        Overlong kernel (unescape (line.chars.take processFullnameMaxlen))
          (line.chars.drop (processFullnameMaxlen + 1)).length)

section

variable {memory text name tail : List Char} {quote : Char} {start : Nat}

theorem quoted_of_notMem (h : quote ∉ text) : quoted quote text = none :=
  if_pos (.inl h)

theorem quoted_append (hname : quote ∉ name) :
    quoted quote (name ++ quote :: tail) =
      if name = [] ∨ processFullnameMaxlen < name.length + 2 then none else behind name tail := by
  have hmem : quote ∈ name ++ quote :: tail := mem_append_right _ mem_cons_self
  rw [quoted, takeWhile_append hname, ← drop_drop, drop_left]
  simp [hmem]

theorem findQuoted_append (hdrop : memory.drop start = name ++ quote :: (tail ++ [nul]))
    (hnul : nul ∉ tail) (hname : nul ∉ name) (hquote : quote ∉ name) (hne : quote ≠ nul)
    (hlt : name.length < processFullnameMaxlen - 1) :
    (∃ arguments, behind name tail = some (name, arguments) ∧
        findQuoted memory start quote = some (.ok ⟨start, name.length, 0⟩)) ∨
      behind name tail = none ∧ ∃ err, findQuoted memory start quote = some (.error err) := by
  have hbehind : memory.drop (start + name.length + 1) = tail ++ [nul] := by
    rw [add_assoc, ← drop_drop, hdrop, ← drop_drop, drop_left]
    rfl
  rw [findQuoted, getIndexOfNext_found hname hquote hne hdrop hlt, some_bind]
  dsimp only
  cases tail with
  | nil =>
    rw [getElem?_of_drop hbehind]
    exact .inl ⟨[], rfl, rfl⟩
  | cons char tail =>
    have hchar : char ≠ nul := fun heq => hnul (heq ▸ mem_cons_self)
    rw [getElem?_of_drop hbehind, some_bind, behind]
    rcases eq_or_ne char ' ' with rfl | hspace
    · exact .inl ⟨tail, rfl, rfl⟩
    · rw [if_neg hspace, if_pos ⟨hspace, hchar⟩]
      exact .inr ⟨rfl, _, rfl⟩

theorem findQuoted_eq (hdrop : memory.drop start = text ++ [nul]) (hnul : nul ∉ text)
    (hquote : quote ≠ nul) : (∀ parts, quoted quote text = some parts →
        findQuoted memory start quote = some (.ok ⟨start, parts.1.length, 0⟩)) ∧
      (quoted quote text = none → (∃ err, findQuoted memory start quote = some (.error err)) ∨
        findQuoted memory start quote = some (.ok ⟨start, 0, 0⟩)) := by
  rcases exists_split quote text with hnone | ⟨name, tail, rfl, hname⟩
  · rw [quoted_of_notMem hnone]
    refine ⟨nofun, fun _ => .inl ?_⟩
    rw [findQuoted]
    rcases lt_or_ge text.length (processFullnameMaxlen - 1) with hlt | hge
    · rw [getIndexOfNext_end hnul hnone hdrop hlt]
      exact ⟨_, rfl⟩
    · rw [getIndexOfNext_limit hnul hnone hdrop hge]
      exact ⟨_, rfl⟩
  rw [quoted_append hname]
  rw [append_assoc, cons_append] at hdrop
  have hnul' : nul ∉ name := fun hmem => hnul (mem_append_left _ hmem)
  have htail : nul ∉ tail := fun hmem =>
    hnul (mem_append_right _ (mem_cons_of_mem _ hmem))
  rcases lt_or_ge name.length (processFullnameMaxlen - 1) with hlt | hge
  · have hshort : ¬ processFullnameMaxlen < name.length + 2 := by omega
    have hfound := findQuoted_append hdrop htail hnul' hname hquote hlt
    rcases eq_or_ne name [] with rfl | hsome
    · refine ⟨nofun, fun _ => ?_⟩
      rcases hfound with ⟨_, -, hok⟩ | ⟨-, herr⟩
      · exact .inr hok
      · exact .inl herr
    · rw [if_neg (not_or.mpr ⟨hsome, hshort⟩)]
      rcases hfound with ⟨arguments, hparts, hok⟩ | ⟨hparts, herr⟩
      · rw [hparts]
        exact ⟨by rintro _ ⟨⟩; exact hok, nofun⟩
      · rw [hparts]
        exact ⟨nofun, fun _ => .inl herr⟩
  · rw [if_pos (.inr (by simp only [processFullnameMaxlen] at *; omega))]
    refine ⟨nofun, fun _ => .inl ?_⟩
    rw [findQuoted, getIndexOfNext_limit hnul' hname hdrop hge]
    exact ⟨_, rfl⟩

end

section

variable {memory text : List Char} {i n left : Nat} {escaped : Bool}

theorem scanFrom_eq (hdrop : memory.drop i = text ++ [nul]) (hnul : nul ∉ text)
    (hescaped : i = 0 ∧ escaped = false ∨
      0 < i ∧ ∃ before, memory[i - 1]? = some before ∧ escaped = decide (before = '\\')) :
    scanFrom memory i n left = some (i + ((plainName escaped text).take left).length,
        n + ((plainName escaped text).take left).count ' ') := by
  induction left generalizing i n text escaped with
  | zero =>
    obtain ⟨char, rest, hcons⟩ := exists_cons_of_ne_nil
      (append_ne_nil_of_right_ne_nil text (cons_ne_nil nul []))
    rw [hcons] at hdrop
    rw [scanFrom, getElem?_of_drop hdrop]
    simp
  | succ left ih =>
    cases text with
    | nil =>
      rw [scanFrom, getElem?_of_drop hdrop]
      simp [plainName]
    | cons char text =>
      obtain ⟨hchar, htext⟩ := not_or.mp fun hmem => hnul (mem_cons.mpr hmem)
      have hnext := drop_succ_of_drop hdrop
      have hbefore : 0 < i + 1 ∧ ∃ before, memory[i + 1 - 1]? = some before ∧
          decide (char = '\\') = decide (before = '\\') :=
        ⟨Nat.succ_pos i, char, getElem?_of_drop hdrop, rfl⟩
      rw [scanFrom, getElem?_of_drop hdrop, some_bind,
        if_neg fun heq => hchar heq.symm, plainName]
      split
      · next hspace =>
        subst hspace
        rcases hescaped with ⟨rfl, rfl⟩ | ⟨hpos, before, hread, rfl⟩
        · simp
        rw [if_neg (by omega), hread, some_bind]
        rcases eq_or_ne before '\\' with rfl | hother
        · rw [if_pos rfl, if_neg (by simp), ih hnext htext (.inr hbefore),
            take_succ_cons, length_cons, count_cons_self]
          congr 2 <;> omega
        · rw [if_neg hother, if_pos (by simpa using hother)]
          simp
      · next hspace =>
        rw [if_neg fun h => hspace h.1, ih hnext htext (.inr hbefore), take_succ_cons,
          length_cons, count_cons_of_ne hspace]
        congr 2
        omega

theorem exists_plainName (escaped : Bool) (text : List Char) :
    ∃ rest, text = plainName escaped text ++ rest ∧ (rest = [] ∨ ∃ tail, rest = ' ' :: tail) := by
  induction text generalizing escaped with
  | nil => exact ⟨[], rfl, .inl rfl⟩
  | cons char text ih =>
    rw [plainName]
    split
    · next hend => exact ⟨char :: text, rfl, .inr ⟨text, by rw [hend.1]⟩⟩
    · obtain ⟨rest, htext, hrest⟩ := ih (char = '\\')
      exact ⟨rest, by rw [cons_append, ← htext], hrest⟩

theorem findPlain_eq (hnul : nul ∉ text) :
    ((plainName false text).length ≤ processFullnameMaxlen → findPlain (text ++ [nul]) =
          some (.ok ⟨0, (plainName false text).length, (plainName false text).count ' '⟩)) ∧
      (processFullnameMaxlen < (plainName false text).length →
        findPlain (text ++ [nul]) =
          if text[processFullnameMaxlen]? = some ' ' then
            some (.ok ⟨0, processFullnameMaxlen,
              ((plainName false text).take processFullnameMaxlen).count ' '⟩)
          else some (.error .invalidResourceName)) := by
  obtain ⟨rest, htext', hrest⟩ := exists_plainName false text
  have hscan := @scanFrom_eq (text ++ [nul]) text 0 0 processFullnameMaxlen false rfl hnul
    (.inl ⟨rfl, rfl⟩)
  rw [zero_add, zero_add] at hscan
  rw [findPlain, hscan, some_bind]
  dsimp only
  constructor
  · intro hle
    have hlast : ∃ last, (text ++ [nul])[(plainName false text).length]? = some last ∧
        (last = ' ' ∨ last = nul) := by
      have hdrop : (text ++ [nul]).drop (plainName false text).length = rest ++ [nul] :=
        (congrArg (fun chars => drop _ (chars ++ [nul])) htext').trans
          (by rw [append_assoc, drop_left])
      rw [← head?_drop, hdrop]
      rcases hrest with rfl | ⟨tail, rfl⟩
      · exact ⟨nul, rfl, .inr rfl⟩
      · exact ⟨' ', rfl, .inl rfl⟩
    obtain ⟨last, hread, hlast⟩ := hlast
    rw [take_of_length_le hle, hread, some_bind, if_neg]
    rintro ⟨-, hspace, hnone⟩
    rcases hlast with h | h
    · exact hspace h
    · exact hnone h
  · intro hlt
    have hlength : processFullnameMaxlen < text.length := by
      rw [htext', length_append]
      omega
    have hread : (text ++ [nul])[processFullnameMaxlen]? = text[processFullnameMaxlen]? :=
      getElem?_append_left hlength
    rw [length_take_of_le hlt.le, hread, getElem?_eq_getElem hlength, some_bind]
    have hne : text[processFullnameMaxlen] ≠ nul := fun h => hnul (h ▸ getElem_mem hlength)
    rcases eq_or_ne text[processFullnameMaxlen] ' ' with hspace | hspace
    · rw [if_neg fun h => h.2.1 hspace, if_pos (congrArg some hspace)]
    · rw [if_pos ⟨rfl, hspace, hne⟩, if_neg fun h => hspace (some.inj h)]

end

section

variable {memory rest buffer : List Char} {name : Extent} {i j k : Nat} {before : Char}

/-- What the name is after its loop: `out` has been copied, and `before` was read last. -/
def consume (nEscapedSpaces : Nat) (out : List Char) (before : Char) (k : Nat) :
    List Char → List Char
  | [] => out
  | char :: rest =>
    if char = ' ' ∧ before = '\\' ∧ k < nEscapedSpaces then
      consume nEscapedSpaces (out.dropLast ++ [char]) char (k + 1) rest
    else consume nEscapedSpaces (out ++ [char]) char k rest

theorem length_le_consume (n : Nat) (out : List Char) (before : Char) (k : Nat)
    (raw : List Char) : out.length ≤ (consume n out before k raw).length := by
  induction raw generalizing out before k with
  | nil => exact le_refl _
  | cons char raw ih =>
    rw [consume]
    split
    · refine le_trans ?_ (ih ..)
      simp
      omega
    · refine le_trans ?_ (ih ..)
      simp

theorem consume_zero (out : List Char) (before : Char) (k : Nat) (raw : List Char) :
    consume 0 out before k raw = out ++ raw := by
  induction raw generalizing out before k with
  | nil => rw [append_nil, consume]
  | cons char raw ih =>
    rw [consume, if_neg (by omega), ih, append_assoc]
    rfl

theorem consume_eq {n : Nat} {raw : List Char} (hcount : k + raw.count ' ' ≤ n) (out : List Char) :
    (before ≠ '\\' → consume n out before k raw = out ++ unescape raw) ∧
      ∀ front, before = '\\' → out = front ++ ['\\'] →
        consume n out before k raw = front ++ unescape ('\\' :: raw) := by
  induction raw generalizing out before k with
  | nil => exact ⟨fun _ => (append_nil out).symm, fun front _ hout => hout⟩
  | cons char raw ih =>
    have hle : raw.count ' ' ≤ (char :: raw).count ' ' := count_le_count_cons
    have hkeep : consume n (out ++ [char]) char k raw = out ++ unescape (char :: raw) := by
      obtain ⟨hother, hescape⟩ := @ih k char (by omega) (out ++ [char])
      rcases eq_or_ne char '\\' with rfl | hne
      · exact hescape out rfl rfl
      · rw [hother hne, unescape, if_neg fun h => hne h.1, append_assoc]
        rfl
    constructor
    · intro hne
      rw [consume, if_neg fun h => hne h.2.1, hkeep]
    · rintro front rfl rfl
      rcases eq_or_ne char ' ' with rfl | hne
      · rw [count_cons_self] at hcount
        rw [consume, if_pos ⟨rfl, rfl, by omega⟩, dropLast_concat,
          (ih (by omega) (front ++ [' '])).1 (by decide), unescape, if_pos ⟨rfl, rfl⟩, unescape,
          if_neg (by simp), append_assoc]
        rfl
      · rw [consume, if_neg fun h => hne h.1, hkeep, unescape.eq_def ('\\' :: char :: raw)]
        dsimp only
        rw [if_neg fun h => hne (some.inj h.2), append_assoc]
        rfl

theorem put_char {index : Nat} (char : Char) (h : index < buffer.length) :
    ∃ next, put buffer index [char] = some next ∧ next.length = buffer.length ∧
      next.take (index + 1) = buffer.take index ++ [char] := by
  obtain ⟨next, hput, hlength, htake, hdrop⟩ := @put_of_le buffer index [char] h
  refine ⟨next, hput, hlength, ?_⟩
  rw [take_add, htake, hdrop]
  rfl

theorem length_unescape (limit : Nat) (escaped : Bool) (text : List Char) :
    (escaped = false → (unescape ((plainName escaped text).take limit)).length +
        ((plainName escaped text).take limit).count ' ' =
          ((plainName escaped text).take limit).length) ∧
      (escaped = true → (unescape ('\\' :: (plainName escaped text).take limit)).length +
        ((plainName escaped text).take limit).count ' ' =
          ((plainName escaped text).take limit).length + 1) := by
  induction limit generalizing escaped text with
  | zero => simp [unescape]
  | succ limit ih =>
    cases text with
    | nil => simp [plainName, unescape]
    | cons char text =>
      have hkeep : char ≠ ' ' →
          (unescape (char :: (plainName (char = '\\') text).take limit)).length +
            (char :: (plainName (char = '\\') text).take limit).count ' ' =
              (char :: (plainName (char = '\\') text).take limit).length := by
        intro hne
        rw [count_cons_of_ne hne, length_cons]
        rcases eq_or_ne char '\\' with rfl | hother
        · exact (ih true text).2 rfl
        · have hrest := (ih (char = '\\') text).1 (decide_eq_false hother)
          rw [unescape, if_neg fun h => hother h.1, length_cons]
          omega
      rw [plainName]
      rcases eq_or_ne char ' ' with rfl | hne
      · cases escaped with
        | false => simp [unescape]
        | true =>
          have hrest := (ih (' ' = '\\') text).1 (by decide)
          refine ⟨nofun, fun _ => ?_⟩
          rw [if_neg (by simp), take_succ_cons, unescape, if_pos ⟨rfl, rfl⟩, unescape,
            if_neg (by simp), count_cons_self, length_cons, length_cons]
          omega
      · rw [if_neg fun h => hne h.1, take_succ_cons]
        refine ⟨fun _ => hkeep hne, fun _ => ?_⟩
        rw [unescape.eq_def ('\\' :: char :: _)]
        dsimp only
        rw [if_neg fun h => hne (some.inj h.2), length_cons]
        have hlength := hkeep hne
        omega

theorem mem_of_mem_unescape {char : Char} {raw : List Char} (h : char ∈ unescape raw) :
    char ∈ raw := by
  induction raw with
  | nil => exact h
  | cons first raw ih =>
    rw [unescape] at h
    split at h
    · exact mem_cons_of_mem _ (ih h)
    · rcases mem_cons.mp h with rfl | hmem
      · exact mem_cons_self
      · exact mem_cons_of_mem _ (ih hmem)

theorem copyFrom_eq {raw out : List Char} (hdrop : memory.drop (name.start + i) = raw ++ rest)
    (hnul : nul ∉ raw) (hbefore : raw.head? = some ' ' → name.start + i ≠ 0 ∧
      memory[name.start + i - 1]? = some before) (hout : buffer.take j = out) (hj : out.length = j)
    (hroom : (consume name.nEscapedSpaces out before k raw).length ≤ buffer.length) :
    ∃ last, copyFrom memory name i j k buffer raw.length = some last ∧ last.length = buffer.length ∧
      last.take (consume name.nEscapedSpaces out before k raw).length =
        consume name.nEscapedSpaces out before k raw := by
  induction raw generalizing i j k before out buffer with
  | nil => exact ⟨buffer, rfl, rfl, by rw [consume, hj, hout]⟩
  | cons char raw ih =>
    obtain ⟨hchar, hraw⟩ := not_or.mp fun hmem => hnul (mem_cons.mpr hmem)
    have hnext := drop_succ_of_drop hdrop
    have hbefore' : raw.head? = some ' ' → name.start + (i + 1) ≠ 0 ∧
        memory[name.start + (i + 1) - 1]? = some char :=
      fun _ => ⟨by omega, getElem?_of_drop hdrop⟩
    have hescaped : isEscapedSpace memory name i k char =
        some (decide (char = ' ' ∧ before = '\\' ∧ k < name.nEscapedSpaces)) := by
      rw [isEscapedSpace]
      rcases eq_or_ne char ' ' with rfl | hne
      · obtain ⟨hstart, hread⟩ := hbefore rfl
        rw [if_pos rfl, if_neg hstart, hread, some_bind]
        simp
      · simp [hne]
    rw [length_cons, copyFrom, getElem?_of_drop hdrop, some_bind, if_neg fun h => hchar h.symm,
      hescaped, some_bind]
    rw [consume] at hroom ⊢
    rcases Decidable.em (char = ' ' ∧ before = '\\' ∧ k < name.nEscapedSpaces) with hcond | hcond
    · rw [if_pos hcond] at hroom ⊢
      have hle := (length_le_consume ..).trans hroom
      have hout' : buffer.take (j - 1) = out.dropLast := by
        rw [dropLast_eq_take, hj, ← hout, take_take, min_eq_left (Nat.sub_le j 1)]
      simp only [length_append, length_dropLast, length_singleton, hj] at hle
      obtain ⟨next, hput, hlength, htake⟩ := put_char char (show j - 1 < buffer.length by omega)
      obtain ⟨last, hcopy, hlast⟩ := @ih next (i + 1) (j - 1 + 1) (k + 1) char _ hnext hraw
        hbefore' (htake.trans (by rw [hout'])) (by simp [hj]) (by rw [hlength]; exact hroom)
      rw [decide_eq_true hcond]
      refine ⟨last, ?_, by rwa [hlength] at hlast⟩
      simp only [if_true, hput, some_bind]
      exact hcopy
    · rw [if_neg hcond] at hroom ⊢
      have hle := (length_le_consume ..).trans hroom
      simp only [length_append, length_singleton, hj] at hle
      obtain ⟨next, hput, hlength, htake⟩ := put_char char (show j < buffer.length by omega)
      obtain ⟨last, hcopy, hlast⟩ := @ih next (i + 1) (j + 1) k char _ hnext hraw hbefore'
        (htake.trans (by rw [hout])) (by simp [hj]) (by rw [hlength]; exact hroom)
      rw [decide_eq_false hcond]
      refine ⟨last, ?_, by rwa [hlength] at hlast⟩
      simp only [Bool.false_eq_true, if_false, hput, some_bind]
      exact hcopy

theorem length_of_put {last : List Char} {index : Nat} {text : List Char}
    (h : put buffer index text = some last) : last.length = buffer.length := by
  rcases lt_or_ge buffer.length (index + text.length) with hlt | hge
  · rw [put_of_lt hlt] at h
    cases h
  · obtain ⟨next, hput, hlength, -⟩ := put_of_le hge
    rw [hput] at h
    cases h
    exact hlength

theorem length_of_copyFrom {last : List Char} {left : Nat}
    (h : copyFrom memory name i j k buffer left = some last) : last.length = buffer.length := by
  induction left generalizing i j k buffer with
  | zero =>
    cases h
    rfl
  | succ left ih =>
    obtain ⟨char, -, h⟩ := bind_eq_some_iff.mp h
    split at h
    · cases h
      rfl
    · obtain ⟨escaped, -, h⟩ := bind_eq_some_iff.mp h
      obtain ⟨next, hput, h⟩ := bind_eq_some_iff.mp h
      exact (ih h).trans (length_of_put hput)

end

section

variable {memory raw rest text arguments : List Char} {name : Extent} {kernel : Bool}
  {before : Char} {start : Nat} {old : Nat → Char}

theorem length_allocation (old : Nat → Char) (size : Nat) :
    (allocation old size).length = size := by
  simp [allocation]

theorem exists_put_nul {buffer : List Char} (htake : buffer.take text.length = text)
    (hnul : nul ∉ text) (hroom : text.length < buffer.length) :
    ∃ last, put buffer text.length [nul] = some last ∧ contents last = text := by
  obtain ⟨last, hput, -, hfront, hbehind⟩ := @put_of_le buffer text.length [nul] hroom
  refine ⟨last, hput, ?_⟩
  rw [← take_append_drop text.length last, hfront, htake, hbehind]
  exact contents_append hnul

structure Found (memory : List Char) (name : Extent) (text : List Char) (start : Nat) : Prop where
  find : findName memory = some (.ok name)
  raw : ∃ raw rest before, memory.drop name.start = raw ++ rest ∧ nul ∉ raw ∧ raw ≠ [] ∧
    name.length = raw.length ∧
    (raw.head? = some ' ' → name.start ≠ 0 ∧ memory[name.start - 1]? = some before) ∧
    consume name.nEscapedSpaces [] before 0 raw = text
  length : name.length - name.nEscapedSpaces = text.length
  nul_notMem : nul ∉ text
  argumentsStart : argumentsStart memory name = some start

theorem Found.generateFullName (h : Found memory name text start) (allocated : Bool) :
    (kernel = false ∧ allocated = false →
        generateFullName memory kernel allocated old = some (.error .memoryNomem)) ∧
      (¬ (kernel = false ∧ allocated = false) → (Fits kernel text → ∃ fullName,
          generateFullName memory kernel allocated old = some (.ok (fullName, start)) ∧
            contents fullName = text) ∧
        (¬ Fits kernel text → generateFullName memory kernel allocated old = none)) := by
  obtain ⟨raw, rest, before, hdrop, hnul, hraw, hlength, hbefore, hconsume⟩ := h.raw
  have hpos : ¬ name.length = 0 := by
    rw [hlength, length_eq_zero_iff]
    exact hraw
  have hle : text.length ≤ name.length := h.length ▸ Nat.sub_le _ _
  rw [ProcessNames.generateFullName, h.find, some_bind]
  dsimp only
  rw [if_neg hpos]
  refine ⟨fun hrefused => if_pos hrefused, fun hmemory => ?_⟩
  rw [if_neg hmemory, h.argumentsStart, h.length]
  have hsize := length_allocation old (if kernel = true then 256 + 1 else name.length + 1)
  constructor
  · intro hfits
    have hroom : text.length < (if kernel = true then 256 + 1 else name.length + 1) := by
      split
      · next hkernel => exact Nat.lt_succ_of_le (hfits hkernel)
      · omega
    obtain ⟨copied, hcopy, hcopied, htake⟩ := @copyFrom_eq memory rest
      (allocation old (if kernel = true then 256 + 1 else name.length + 1)) name 0 0 0 before raw []
      hdrop hnul hbefore take_zero rfl (by rw [hconsume, hsize]; exact hroom.le)
    rw [hconsume] at htake
    obtain ⟨fullName, hput, hcontents⟩ := exists_put_nul htake h.nul_notMem
      (by rw [hcopied, hsize]; exact hroom)
    refine ⟨fullName, ?_, hcontents⟩
    rw [hlength] at hcopy ⊢
    rw [hcopy, some_bind, hput]
    rfl
  · intro hover
    obtain ⟨hkernel, hlong⟩ := Classical.not_imp.mp hover
    cases hcopy : copyFrom memory name 0 0 0
        (allocation old (if kernel = true then 256 + 1 else name.length + 1)) name.length with
    | none => rfl
    | some copied =>
      have hcopied := (length_of_copyFrom hcopy).trans hsize
      rw [if_pos hkernel] at hcopied
      rw [some_bind,
        put_of_lt (by rw [hcopied, length_singleton]; omega)]
      rfl

theorem generateArguments_eq (hdrop : memory.drop start = arguments ++ [nul])
    (hnul : nul ∉ arguments) (allocated : Bool) : (maxLength kernel < arguments.length →
        generateArguments memory start kernel allocated old = some (.error .limitOverflowed)) ∧
      (arguments.length ≤ maxLength kernel → (kernel = false ∧ allocated = false →
          generateArguments memory start kernel allocated old = some (.error .memoryNomem)) ∧
        (¬ (kernel = false ∧ allocated = false) → ∃ buffer,
          generateArguments memory start kernel allocated old = some (.ok buffer) ∧
            contents buffer = arguments)) := by
  rw [generateArguments, strnlen8_eq hnul hdrop, some_bind]
  constructor
  · intro hlong
    have hread : memory[start + maxLength kernel]? = some arguments[maxLength kernel] := by
      rw [← getElem?_drop, hdrop, getElem?_append_left hlong,
        getElem?_eq_getElem hlong]
    have hne : arguments[maxLength kernel] ≠ nul := fun h => hnul (h ▸ getElem_mem hlong)
    rw [min_eq_right hlong.le, hread, some_bind, if_pos ⟨rfl, hne⟩]
  · intro hle
    have hread : memory[start + arguments.length]? = some nul := by
      rw [← getElem?_drop, hdrop, getElem?_concat_length]
    rw [min_eq_left hle, hread, some_bind,
      if_neg fun h => h.2 rfl, hdrop, take_left]
    refine ⟨fun hrefused => if_pos hrefused, fun hmemory => ?_⟩
    have hsize := length_allocation old
      (if kernel = true then 2048 + 1 else arguments.length + 1)
    have hroom : arguments.length < (if kernel = true then 2048 + 1 else arguments.length + 1) := by
      split
      · next hkernel =>
        rw [maxLength, if_pos hkernel] at hle
        omega
      · omega
    obtain ⟨copied, hput, hcopied, -, hfront⟩ := @put_of_le
      (allocation old (if kernel = true then 2048 + 1 else arguments.length + 1)) 0 arguments
      (by rw [hsize]; omega)
    obtain ⟨buffer, hputNul, hcontents⟩ := @exists_put_nul arguments copied
      (by rw [show copied = copied.drop 0 from rfl, hfront, take_left]) hnul
      (by rw [hcopied, hsize]; exact hroom)
    refine ⟨buffer, ?_, hcontents⟩
    rw [if_neg hmemory]
    dsimp only
    rw [hput, some_bind, hputNul]
    rfl

def expected (kernel : Bool) (allocations : Allocations) (parts : List Char × List Char) :
    Option (Except Kerror (List Char × List Char)) :=
  if kernel = false ∧ allocations.fullName = false then some (.error .memoryNomem)
  else if kernel = true ∧ 256 < parts.1.length then none
  else if maxLength kernel < parts.2.length then some (.error .limitOverflowed)
  else if kernel = false ∧ allocations.arguments = false then some (.error .memoryNomem)
  else some (.ok parts)

theorem Found.generate (h : Found memory name text start)
    (hdrop : memory.drop start = arguments ++ [nul]) (hnul : nul ∉ arguments)
    (allocations : Allocations) :
    generate memory kernel allocations old = expected kernel allocations (text, arguments) := by
  obtain ⟨hrefused, hmemory⟩ := @Found.generateFullName memory text name kernel start old h
    allocations.fullName
  obtain ⟨hlong, hshort⟩ := @generateArguments_eq memory arguments kernel start old hdrop hnul
    allocations.arguments
  rw [ProcessNames.generate, expected]
  split
  · next hnone =>
    rw [hrefused hnone]
    rfl
  next hsome =>
  obtain ⟨hfits, hover⟩ := hmemory hsome
  split
  · next hoverflow =>
    rw [hover fun h => absurd (h hoverflow.1) (Nat.not_le.mpr hoverflow.2)]
    rfl
  next hroom =>
  obtain ⟨fullName, hname, hcontents⟩ := hfits fun hkernel =>
    Nat.le_of_not_lt fun hlt => hroom ⟨hkernel, hlt⟩
  rw [hname, some_bind]
  dsimp only
  split
  · next hlt =>
    rw [hlong hlt]
    rfl
  next hle =>
  obtain ⟨hnone, hsome⟩ := hshort (Nat.le_of_not_lt hle)
  split
  · next hno =>
    rw [hnone hno]
    rfl
  next hyes =>
  obtain ⟨buffer, harguments, htext⟩ := hsome hyes
  rw [harguments, some_bind]
  dsimp only
  rw [hcontents, htext]

theorem generate_of_error {err : Kerror} (h : findName memory = some (.error err))
    (allocations : Allocations) : generate memory kernel allocations old = some (.error err) := by
  rw [ProcessNames.generate, generateFullName, h]
  rfl

theorem generate_of_empty {name : Extent} (h : findName memory = some (.ok name))
    (hlength : name.length = 0) (allocations : Allocations) :
    generate memory kernel allocations old = some (.error .invalidResourceName) := by
  have hname : generateFullName memory kernel allocations.fullName old =
      some (.error .invalidResourceName) := by
    rw [generateFullName, h, some_bind]
    exact if_pos hlength
  rw [ProcessNames.generate, hname]
  rfl

end

section

variable {line : CommandLine} {kernel : Bool} {allocations : Allocations} {old : Nat → Char}
  {memory text rest : List Char} {quote : Char} {start : Nat} {parts : List Char × List Char}

theorem expected_of_refused (h : Refused kernel allocations) (parts : List Char × List Char) :
    ∃ err, expected kernel allocations parts = some (.error err) := by
  obtain ⟨rfl, hnone⟩ := h
  rw [expected]
  split
  · exact ⟨_, rfl⟩
  next hname =>
  rw [if_neg (by simp)]
  split
  · exact ⟨_, rfl⟩
  · rw [if_pos ⟨rfl, hnone.resolve_left fun h => hname ⟨rfl, h⟩⟩]
    exact ⟨_, rfl⟩

theorem expected_of_not_refused (h : ¬ Refused kernel allocations)
    (parts : List Char × List Char) :
    expected kernel allocations parts =
      if kernel = true ∧ 256 < parts.1.length then none
      else if maxLength kernel < parts.2.length then some (.error .limitOverflowed)
      else some (.ok parts) := by
  have hname : ¬ (kernel = false ∧ allocations.fullName = false) :=
    fun hno => h ⟨hno.1, .inl hno.2⟩
  have harguments : ¬ (kernel = false ∧ allocations.arguments = false) :=
    fun hno => h ⟨hno.1, .inr hno.2⟩
  rw [expected, if_neg hname, if_neg harguments]

theorem follows_of_error (h : ∀ allocations, ∃ err,
      generate line.memory kernel allocations old = some (.error err)) :
    Follows line kernel allocations old ↔
      (¬ Refused kernel allocations → grammar line.chars = none) := by
  obtain ⟨err, herr⟩ := h allocations
  constructor
  · intro hfollows hmemory
    refine eq_none_iff_forall_ne_some.mpr fun parts hparts => ?_
    have hok := hfollows.1 parts hmemory hparts
    rw [herr] at hok
    cases hok
  · intro hnone
    refine ⟨fun parts hmemory hparts => ?_, fun _ => ⟨err, herr⟩⟩
    rw [hnone hmemory] at hparts
    cases hparts

theorem follows_of_expected
    (h : generate line.memory kernel allocations old = expected kernel allocations parts) :
    Follows line kernel allocations old ↔ (¬ Refused kernel allocations →
        (∀ other, grammar line.chars = some other →
          other = parts ∧ Fits kernel parts.1 ∧ parts.2.length ≤ maxLength kernel) ∧
        (grammar line.chars = none → Overlong kernel parts.1 parts.2.length)) := by
  rw [Follows, h]
  constructor
  · rintro ⟨hparts, herror⟩ hmemory
    rw [expected_of_not_refused hmemory] at hparts herror
    constructor
    · intro other hother
      have hok := hparts other hmemory hother
      split at hok
      · cases hok
      next hfits =>
      split at hok
      · cases hok
      next hle =>
      cases hok
      exact ⟨rfl, fun hkernel => Nat.le_of_not_lt fun hlt => hfits ⟨hkernel, hlt⟩,
        Nat.le_of_not_lt hle⟩
    · intro hnone
      obtain ⟨err, herr⟩ := herror (.inr hnone)
      split at herr
      · cases herr
      next hfits =>
      split at herr
      · next hlong =>
        exact ⟨fun hkernel => Nat.le_of_not_lt fun hlt => hfits ⟨hkernel, hlt⟩, hlong⟩
      · cases herr
  · intro hcond
    rcases em (Refused kernel allocations) with hrefused | hmemory
    · exact ⟨fun _ hmemory => absurd hrefused hmemory, fun _ => expected_of_refused hrefused parts⟩
    obtain ⟨hsome, hnone⟩ := hcond hmemory
    rw [expected_of_not_refused hmemory]
    constructor
    · intro other _ hother
      obtain ⟨rfl, hfits, hle⟩ := hsome other hother
      rw [if_neg fun h => absurd (hfits h.1) (Nat.not_le.mpr h.2), if_neg (Nat.not_lt.mpr hle)]
    · rintro (hrefused | hgrammar)
      · exact absurd hrefused hmemory
      · obtain ⟨hfits, hlong⟩ := hnone hgrammar
        rw [if_neg fun h => absurd (hfits h.1) (Nat.not_le.mpr h.2), if_pos hlong]
        exact ⟨_, rfl⟩

theorem quoted_eq_some (h : quoted quote text = some parts) :
    ∃ tail, text = parts.1 ++ quote :: tail ∧ quote ∉ parts.1 ∧ parts.1 ≠ [] ∧
      (tail = [] ∧ parts.2 = [] ∨ tail = ' ' :: parts.2) := by
  rcases exists_split quote text with hnone | ⟨name, tail, rfl, hname⟩
  · rw [quoted_of_notMem hnone] at h
    cases h
  rw [quoted_append hname] at h
  split at h
  · cases h
  next hcond =>
  cases tail with
  | nil =>
    cases h
    exact ⟨[], rfl, hname, fun hnil => hcond (.inl hnil), .inl ⟨rfl, rfl⟩⟩
  | cons char arguments =>
    rw [behind] at h
    split at h
    · next hspace =>
      cases h
      exact ⟨' ' :: arguments, by rw [hspace], hname, fun hnil => hcond (.inl hnil), .inr rfl⟩
    · cases h

theorem found_quoted (hdrop : memory.drop (start + 1) = text ++ [nul]) (hnul : nul ∉ text)
    (hbefore : memory[start]? = some quote) (hquote : quote ≠ nul) (hspace : quote ≠ ' ')
    (hfind : findName memory = findQuoted memory (start + 1) quote)
    (hparts : quoted quote text = some parts) :
    ∃ index, Found memory ⟨start + 1, parts.1.length, 0⟩ parts.1 index ∧
      memory.drop (start + index) = parts.2 ++ [nul] ∧
      ∃ char, char ≠ nul ∧ memory.drop (start + index - 1) = char :: (parts.2 ++ [nul]) := by
  have hextent := hfind.trans ((findQuoted_eq hdrop hnul hquote).1 parts hparts)
  obtain ⟨tail, rfl, -, hne, htail⟩ := quoted_eq_some hparts
  rw [append_assoc, cons_append] at hdrop
  have hnul' : nul ∉ parts.1 := fun hmem => hnul (mem_append_left _ hmem)
  have hclosing : memory.drop (start + 1 + parts.1.length) = quote :: (tail ++ [nul]) := by
    rw [← drop_drop, hdrop, drop_left]
  have hbehind := drop_succ_of_drop hclosing
  have hfound : ∀ index, argumentsStart memory ⟨start + 1, parts.1.length, 0⟩ = some index →
      Found memory ⟨start + 1, parts.1.length, 0⟩ parts.1 index := fun index hindex =>
    { find := hextent
      raw := ⟨parts.1, _, quote, hdrop, hnul', hne, rfl,
        fun _ => ⟨Nat.succ_ne_zero start, hbefore⟩, consume_zero [] quote 0 parts.1⟩
      length := Nat.sub_zero _
      nul_notMem := hnul'
      argumentsStart := hindex }
  have hstart : ∀ index, (do
      let after ← memory[start + 1 + parts.1.length + 1]?
      if after = ' ' then some (parts.1.length + 2 + 1) else some (parts.1.length + 1 + 1)) =
        some index → argumentsStart memory ⟨start + 1, parts.1.length, 0⟩ = some index := by
    intro index hindex
    rw [argumentsStart, getElem?_of_drop hclosing, some_bind, if_neg hquote, if_neg hspace]
    exact hindex
  rcases htail with ⟨rfl, hnone⟩ | rfl
  · refine ⟨parts.1.length + 1 + 1, hfound _ (hstart _ ?_), ?_, quote, hquote, ?_⟩
    · rw [getElem?_of_drop hbehind]
      rfl
    · rw [hnone, show start + (parts.1.length + 1 + 1) = start + 1 + parts.1.length + 1 by omega]
      exact hbehind
    · rw [hnone, show start + (parts.1.length + 1 + 1) - 1 = start + 1 + parts.1.length by omega]
      exact hclosing
  · refine ⟨parts.1.length + 2 + 1, hfound _ (hstart _ ?_), ?_, ' ', by decide, ?_⟩
    · rw [getElem?_of_drop hbehind]
      rfl
    · rw [show start + (parts.1.length + 2 + 1) = start + 1 + parts.1.length + 1 + 1 by omega]
      exact drop_succ_of_drop hbehind
    · rw [show start + (parts.1.length + 2 + 1) - 1 = start + 1 + parts.1.length + 1 by omega]
      exact hbehind

theorem notMem_of_drop {chars : List Char} (h : line.memory.drop start = chars ++ [nul]) :
    nul ∉ chars := by
  rw [CommandLine.memory, drop_append] at h
  rcases lt_or_ge line.chars.length start with hlt | hge
  · rw [drop_eq_nil_of_le hlt.le, nil_append,
      drop_eq_nil_of_le (by simp; omega)] at h
    simp at h
  · rw [Nat.sub_eq_zero_of_le hge, drop_zero, append_cancel_right_eq] at h
    exact fun hmem => line.nul_notMem (mem_of_mem_drop (h ▸ hmem))

theorem error_of_quoted (hdrop : memory.drop start = text ++ [nul]) (hnul : nul ∉ text)
    (hquote : quote ≠ nul) (hfind : findName memory = findQuoted memory start quote)
    (hnone : quoted quote text = none) (allocations : Allocations) :
    ∃ err, generate memory kernel allocations old = some (.error err) := by
  rcases (findQuoted_eq hdrop hnul hquote).2 hnone with ⟨err, herr⟩ | hempty
  · exact ⟨err, generate_of_error (hfind.trans herr) allocations⟩
  · exact ⟨_, generate_of_empty (hfind.trans hempty) rfl allocations⟩

theorem follows_quoted (hline : line.chars = quote :: rest) (hquote : quote ≠ nul)
    (hspace : quote ≠ ' ') (hgrammar : grammar line.chars = quoted quote rest)
    (hfind : findName line.memory = findQuoted line.memory 1 quote) :
    Follows line kernel allocations old ↔ (¬ Refused kernel allocations →
      ∀ parts, grammar line.chars = some parts →
        Fits kernel parts.1 ∧ parts.2.length ≤ maxLength kernel) := by
  have hdrop : line.memory.drop (0 + 1) = rest ++ [nul] := by
    rw [CommandLine.memory, hline]
    rfl
  have hnul : nul ∉ rest := fun hmem => line.nul_notMem (hline ▸ mem_cons_of_mem _ hmem)
  cases hparts : quoted quote rest with
  | none =>
    rw [follows_of_error fun allocations =>
      error_of_quoted hdrop hnul hquote hfind hparts allocations, hgrammar, hparts]
    exact iff_of_true (fun _ => rfl) (fun _ => nofun)
  | some parts =>
    have hread : line.memory[0]? = some quote := by
      rw [CommandLine.memory, hline]
      rfl
    obtain ⟨index, hfound, hbehind, -⟩ :=
      found_quoted hdrop hnul hread hquote hspace hfind hparts
    rw [zero_add] at hbehind
    rw [follows_of_expected (hfound.generate hbehind (notMem_of_drop hbehind) allocations),
      hgrammar, hparts]
    constructor
    · intro h hmemory other hother
      obtain ⟨rfl, hfits, hle⟩ := (h hmemory).1 other hother
      exact ⟨hfits, hle⟩
    · intro h hmemory
      refine ⟨fun other hother => ?_, nofun⟩
      cases hother
      exact ⟨rfl, h hmemory parts rfl⟩

theorem follows_bothQuotes (hline : line.chars = '\'' :: '"' :: rest) :
    Follows line kernel allocations old ↔ (¬ Refused kernel allocations →
      grammar line.chars = none ∧ ∀ parts, quoted '"' rest = some parts →
        Overlong kernel parts.1 (parts.2.length + 1)) := by
  have hdrop : line.memory.drop (1 + 1) = rest ++ [nul] := by
    rw [CommandLine.memory, hline]
    rfl
  have hnul : nul ∉ rest := fun hmem =>
    line.nul_notMem (hline ▸ mem_cons_of_mem _ (mem_cons_of_mem _ hmem))
  have hfind : findName line.memory = findQuoted line.memory (1 + 1) '"' := by
    rw [findName, CommandLine.memory, hline]
    rfl
  cases hparts : quoted '"' rest with
  | none =>
    rw [follows_of_error fun allocations =>
      error_of_quoted hdrop hnul (by decide) hfind hparts allocations]
    exact ⟨fun h hmemory => ⟨h hmemory, nofun⟩, fun h hmemory => (h hmemory).1⟩
  | some parts =>
    have hread : line.memory[1]? = some '"' := by
      rw [CommandLine.memory, hline]
      rfl
    obtain ⟨index, hfound, -, char, hchar, hbefore⟩ :=
      found_quoted hdrop hnul hread (by decide) (by decide) hfind hparts
    rw [Nat.add_sub_cancel_left, ← cons_append] at hbefore
    rw [follows_of_expected (hfound.generate hbefore (notMem_of_drop hbefore) allocations)]
    -- The name of the grammar begins with the double quote, which this one has not.
    have hne : ∀ other, grammar line.chars = some other → other.1 ≠ parts.1 := by
      intro other hother heq
      rw [hline, grammar] at hother
      obtain ⟨tail, htext, -, hnonempty, -⟩ := quoted_eq_some hother
      obtain ⟨-, -, hquote, -⟩ := quoted_eq_some hparts
      obtain ⟨first, name, hcons⟩ := exists_cons_of_ne_nil hnonempty
      rw [hcons, cons_append, cons.injEq] at htext
      rw [← heq, hcons, ← htext.1] at hquote
      exact hquote mem_cons_self
    constructor
    · intro h hmemory
      obtain ⟨hsome, hnone⟩ := h hmemory
      have hgrammar : grammar line.chars = none :=
        eq_none_iff_forall_ne_some.mpr fun other hother =>
          hne other hother (by rw [(hsome other hother).1])
      refine ⟨hgrammar, fun other hother => ?_⟩
      cases hother
      exact hnone hgrammar
    · intro h hmemory
      obtain ⟨hgrammar, hlong⟩ := h hmemory
      rw [hgrammar]
      exact ⟨nofun, fun _ => hlong parts rfl⟩

theorem findName_plain (hsingle : line.chars.head? ≠ some '\'')
    (hdouble : line.chars.head? ≠ some '"') : findName line.memory = findPlain line.memory := by
  obtain ⟨first, hfirst, hne, hne'⟩ : ∃ first, line.memory[0]? = some first ∧ first ≠ '\'' ∧
      first ≠ '"' := by
    rw [CommandLine.memory]
    cases hline : line.chars with
    | nil => exact ⟨nul, rfl, by decide, by decide⟩
    | cons first rest =>
      rw [hline] at hsingle hdouble
      exact ⟨first, rfl, fun h => hsingle (congrArg some h), fun h => hdouble (congrArg some h)⟩
  rw [findName, hfirst, some_bind, if_neg hne]
  dsimp only
  rw [hfirst, some_bind, if_neg hne', if_neg hne]

theorem grammar_plain (hsingle : text.head? ≠ some '\'') (hdouble : text.head? ≠ some '"') :
    grammar text = plain text := by
  unfold grammar
  split
  · exact absurd rfl hsingle
  · exact absurd rfl hdouble
  · rfl

theorem head?_plainName (text : List Char) : (plainName false text).head? ≠ some ' ' := by
  cases text with
  | nil => nofun
  | cons char text =>
    rw [plainName]
    split
    · nofun
    · next hspace => exact fun h => hspace ⟨some.inj h, rfl⟩

theorem generate_plain {length : Nat} (hfind : findName line.memory = some (.ok ⟨0, length,
      ((plainName false line.chars).take length).count ' '⟩))
    (hle : length ≤ (plainName false line.chars).length) (hpos : 0 < length)
    (hlast : line.chars[length]? = some ' ' ∨ length = line.chars.length) :
    generate line.memory kernel allocations old =
      expected kernel allocations (unescape ((plainName false line.chars).take length),
        line.chars.drop (length + 1)) := by
  obtain ⟨rest, htext, -⟩ := exists_plainName false line.chars
  have htake := List.length_take_of_le hle
  have hlength := (length_unescape length false line.chars).1 rfl
  have hnul : nul ∉ (plainName false line.chars).take length := fun hmem =>
    line.nul_notMem (htext ▸ List.mem_append_left rest (List.mem_of_mem_take hmem))
  have hraw := List.length_pos_iff.mp (by rw [htake]; exact hpos)
  have hdrop : line.memory.drop 0 = (plainName false line.chars).take length ++
      ((plainName false line.chars).drop length ++ (rest ++ [nul])) := by
    rw [← List.append_assoc, List.take_append_drop, ← List.append_assoc, ← htext]
    rfl
  have hbefore : ((plainName false line.chars).take length).head? = some ' ' →
      0 ≠ 0 ∧ line.memory[0 - 1]? = some nul := by
    intro hspace
    rw [List.head?_take, if_neg hpos.ne'] at hspace
    exact absurd hspace (head?_plainName line.chars)
  have hindex : ∃ index, argumentsStart line.memory ⟨0, length,
      ((plainName false line.chars).take length).count ' '⟩ = some index ∧
        line.memory.drop index = line.chars.drop (length + 1) ++ [nul] := by
    rw [argumentsStart]
    rw [zero_add, CommandLine.memory]
    rcases hlast with hspace | hend
    · obtain ⟨hlt, -⟩ := List.getElem?_eq_some_iff.mp hspace
      rw [List.getElem?_append_left hlt, hspace, some_bind,
        if_neg (by decide), if_pos rfl]
      exact ⟨_, rfl, List.drop_append_of_le_length hlt⟩
    · rw [hend, List.getElem?_concat_length, some_bind, if_pos rfl]
      refine ⟨_, rfl, ?_⟩
      rw [List.drop_left, List.drop_eq_nil_of_le (Nat.le_succ _), List.nil_append]
  obtain ⟨index, hstart, hbehind⟩ := hindex
  have hfound : Found line.memory ⟨0, length, ((plainName false line.chars).take length).count ' '⟩
      (unescape ((plainName false line.chars).take length)) index :=
    { find := hfind
      raw := ⟨_, _, nul, hdrop, hnul, hraw, htake.symm, hbefore,
        ((consume_eq (zero_add _).le []).1 (by decide)).trans (List.nil_append _)⟩
      length := by dsimp only; omega
      nul_notMem := fun hmem => hnul (mem_of_mem_unescape hmem)
      argumentsStart := hstart }
  exact hfound.generate hbehind (notMem_of_drop hbehind) allocations

theorem follows_plain (hsingle : line.chars.head? ≠ some '\'')
    (hdouble : line.chars.head? ≠ some '"') :
    Follows line kernel allocations old ↔ (¬ Refused kernel allocations →
      (∀ parts, grammar line.chars = some parts →
          Fits kernel parts.1 ∧ parts.2.length ≤ maxLength kernel) ∧
        (EscapedAtLimit line.chars →
          Overlong kernel (unescape (line.chars.take processFullnameMaxlen))
            (line.chars.drop (processFullnameMaxlen + 1)).length)) := by
  have hfind := findName_plain hsingle hdouble
  have hgrammar := grammar_plain hsingle hdouble
  obtain ⟨hshort, hlong⟩ := findPlain_eq line.nul_notMem
  obtain ⟨rest, htext, hrest⟩ := exists_plainName false line.chars
  rcases lt_or_ge processFullnameMaxlen (plainName false line.chars).length with hlt | hle
  · have hnone : grammar line.chars = none := by
      rw [hgrammar, plain]
      exact if_pos (.inr hlt)
    rcases Decidable.em (line.chars[processFullnameMaxlen]? = some ' ') with hspace | hspace
    · have hatLimit : EscapedAtLimit line.chars := ⟨hsingle, hdouble, hlt, hspace⟩
      have htake : line.chars.take processFullnameMaxlen =
          (plainName false line.chars).take processFullnameMaxlen :=
        (congrArg (take processFullnameMaxlen) htext).trans
          (take_append_of_le_length hlt.le)
      rw [follows_of_expected (generate_plain (hfind.trans ((hlong hlt).trans (if_pos hspace)))
        hlt.le (by decide) (.inl hspace)), hnone, htake]
      constructor
      · intro h hmemory
        exact ⟨nofun, fun _ => (h hmemory).2 rfl⟩
      · intro h hmemory
        exact ⟨nofun, fun _ => (h hmemory).2 hatLimit⟩
    · rw [follows_of_error fun allocations => ⟨_, generate_of_error
        (hfind.trans ((hlong hlt).trans (if_neg hspace))) allocations⟩, hnone]
      exact iff_of_true (fun _ => rfl)
        (fun _ => ⟨nofun, fun hatLimit => absurd hatLimit.2.2.2 hspace⟩)
  have hnotLimit : ¬ EscapedAtLimit line.chars := fun h => absurd h.2.2.1 (Nat.not_lt.mpr hle)
  rcases eq_zero_or_pos (plainName false line.chars).length with hzero | hpos
  · have hnone : grammar line.chars = none := by
      rw [hgrammar, plain]
      exact if_pos (.inl (length_eq_zero_iff.mp hzero))
    rw [follows_of_error fun allocations => ⟨_, generate_of_empty (hfind.trans (hshort hle))
      hzero allocations⟩, hnone]
    exact iff_of_true (fun _ => rfl) (fun _ => ⟨nofun, fun h => absurd h hnotLimit⟩)
  have hsome : grammar line.chars = some (unescape (plainName false line.chars),
      line.chars.drop ((plainName false line.chars).length + 1)) := by
    rw [hgrammar, plain]
    exact if_neg (not_or.mpr ⟨length_pos_iff.mp hpos, Nat.not_lt.mpr hle⟩)
  have hlast : line.chars[(plainName false line.chars).length]? = some ' ' ∨
      (plainName false line.chars).length = line.chars.length := by
    have hdrop : line.chars.drop (plainName false line.chars).length = rest :=
      (congrArg (drop (plainName false line.chars).length) htext).trans drop_left
    rcases hrest with rfl | ⟨tail, rfl⟩
    · rw [append_nil] at htext
      exact .inr (congrArg length htext).symm
    · exact .inl (getElem?_of_drop hdrop)
  have hgenerate := @generate_plain line kernel allocations old
    (plainName false line.chars).length
    (by rw [take_length]; exact hfind.trans (hshort hle)) (le_refl _) hpos hlast
  rw [take_length] at hgenerate
  rw [follows_of_expected hgenerate, hsome]
  constructor
  · intro h hmemory
    refine ⟨fun parts hparts => ?_, fun h => absurd h hnotLimit⟩
    obtain ⟨rfl, hfits⟩ := (h hmemory).1 parts hparts
    exact hfits
  · intro h hmemory
    refine ⟨fun parts hparts => ?_, nofun⟩
    cases hparts
    exact ⟨rfl, (h hmemory).1 _ rfl⟩

/-- A command line is read as the grammar says exactly when it is good. -/
theorem follows_iff_good (line : CommandLine) (kernel : Bool) (allocations : Allocations)
    (old : Nat → Char) : Follows line kernel allocations old ↔ Good line kernel allocations := by
  have hother : line.chars.head? = some '\'' ∨ line.chars.head? = some '"' →
      ¬ EscapedAtLimit line.chars := by
    rintro (hsingle | hdouble) hlimit
    · exact hlimit.1 hsingle
    · exact hlimit.2.1 hdouble
  rcases Decidable.em (line.chars.head? = some '\'') with hsingle | hsingle
  · obtain ⟨rest, hline⟩ := head?_eq_some_iff.mp hsingle
    rcases Decidable.em (rest.head? = some '"') with hdouble | hdouble
    · obtain ⟨rest, rfl⟩ := head?_eq_some_iff.mp hdouble
      rw [follows_bothQuotes hline]
      refine forall_congr' fun hmemory => ⟨fun h => ⟨?_, ?_, fun hlimit =>
        absurd hlimit (hother (.inl hsingle))⟩, fun h => h.2.1 rest hline⟩
      · rw [h.1]
        nofun
      · intro other hcons
        rw [hline] at hcons
        cases hcons
        exact h
    have hfind : findName line.memory = findQuoted line.memory 1 '\'' := by
      obtain ⟨second, hread, hne⟩ : ∃ second, line.memory[1]? = some second ∧ second ≠ '"' := by
        rw [CommandLine.memory, hline]
        cases rest with
        | nil => exact ⟨nul, rfl, by decide⟩
        | cons second rest => exact ⟨second, rfl, fun h => hdouble (congrArg some h)⟩
      have hfirst : line.memory[0]? = some '\'' := by
        rw [CommandLine.memory, hline]
        rfl
      rw [findName, hfirst, some_bind, if_pos rfl]
      dsimp only
      rw [hread, some_bind, if_neg hne, if_pos rfl]
    rw [follows_quoted hline (by decide) (by decide) (by rw [hline]; rfl) hfind]
    refine forall_congr' fun hmemory => ⟨fun h => ⟨h, fun other hcons => ?_, fun hlimit =>
      absurd hlimit (hother (.inl hsingle))⟩, fun h => h.1⟩
    rw [hline] at hcons
    cases hcons
    exact absurd rfl hdouble
  have hsecond : ∀ rest, line.chars ≠ '\'' :: '"' :: rest := fun rest hline =>
    hsingle (by rw [hline]; rfl)
  rcases Decidable.em (line.chars.head? = some '"') with hdouble | hdouble
  · obtain ⟨rest, hline⟩ := head?_eq_some_iff.mp hdouble
    rw [follows_quoted hline (by decide) (by decide) (by rw [hline]; rfl)
      (by rw [findName, CommandLine.memory, hline]; rfl)]
    exact forall_congr' fun hmemory => ⟨fun h => ⟨h, fun other hcons => absurd hcons
      (hsecond other), fun hlimit => absurd hlimit (hother (.inr hdouble))⟩, fun h => h.1⟩
  · rw [follows_plain hsingle hdouble]
    exact forall_congr' fun hmemory => ⟨fun h => ⟨h.1, fun other hcons => absurd hcons
      (hsecond other), h.2⟩, fun h => ⟨h.1, h.2.2⟩⟩

theorem quotesInName_not_follows :
    ¬ Follows ⟨['\'', '"', 'a', '"', ' ', 'b', '\''], by decide⟩ false ⟨true, true⟩
      (fun _ => nul) := by
  intro h
  have hname := h.1 (['"', 'a', '"', ' ', 'b'], []) (by simp [Refused]) (by decide)
  have hread : generate ['\'', '"', 'a', '"', ' ', 'b', '\'', nul] false ⟨true, true⟩
      (fun _ => nul) = some (.ok (['a'], [' ', 'b', '\''])) := rfl
  cases hread.symm.trans hname

end

end Zambesii.ProcessNames
