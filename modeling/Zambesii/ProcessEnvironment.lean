import Mathlib.Data.List.Forall2
import Zambesii.NulText

/-!
The environment variables of a process, out of its environment string.
-/

namespace Zambesii.ProcessEnvironment

open KernelTypes List NulText

section

def processEnvMaxNvars : Nat := 64

def processEnvNameMaxlen : Nat := 96

def processEnvValueMaxlen : Nat := 512

@[ext] structure Field (size : Nat) where
  chars : List Char
  length_eq : chars.length = size

structure EnvironmentVar where
  name : Field processEnvNameMaxlen
  value : Field processEnvValueMaxlen

variable {size : Nat}

def Field.put (field : Field size) (index : Nat) (text : List Char) : Option (Field size) :=
  if h : index + text.length ≤ size then
    some ⟨field.chars.take index ++ (text ++ field.chars.drop (index + text.length)), by
      simp [field.length_eq]
      omega⟩
  else none

def strlen8 (memory : List Char) (str : Nat) : Option Nat :=
  strnlen8 memory str (memory.length + 1)

/-- What `strncpy8` writes: the text up to its NUL, and then NULs. -/
def strncpy8 (memory : List Char) (src count : Nat) : Option (List Char) := do
  let n ← strnlen8 memory src count
  some ((memory.drop src).take n ++ List.replicate (count - n) nul)

def Field.copy (field : Field size) (memory : List Char) (src length : Nat) :
    Option (Field size) := do
  let text ← strncpy8 memory src length
  let field ← field.put 0 text
  if length < size then field.put length [nul] else some field

/-- What is done to `environment[i]` in the second pass. -/
def inSecondPass (isSecondPass : Bool) (environment : List EnvironmentVar) (i : Nat)
    (write : EnvironmentVar → Option EnvironmentVar) : Option (List EnvironmentVar) :=
  if isSecondPass then do
    let var ← environment[i]?
    let var ← write var
    some (environment.set i var)
  else some environment

def copyName (memory : List Char) (src length : Nat) (var : EnvironmentVar) :
    Option EnvironmentVar := do
  let name ← var.name.copy memory src length
  some { var with name }

def copyValue (memory : List Char) (src length : Nat) (var : EnvironmentVar) :
    Option EnvironmentVar := do
  let value ← var.value.copy memory src length
  some { var with value }

def emptyValue (var : EnvironmentVar) : Option EnvironmentVar := do
  let value ← var.value.put 0 [nul]
  some { var with value }

/-- The loop's body: what is added to `strIndex`, and the environment. -/
def parseVar (environmentString : List Char) (isSecondPass : Bool) (i strIndex : Nat)
    (environment : List EnvironmentVar) : Option (Except Kerror (Nat × List EnvironmentVar)) := do
  match ← getIndexOfNext environmentString strIndex '=' (processEnvNameMaxlen + 1) with
  | .error .notFound => do
      let nameLen ← strlen8 environmentString strIndex
      let environment ← inSecondPass isSecondPass environment i
        (copyName environmentString strIndex nameLen)
      let environment ← inSecondPass isSecondPass environment i emptyValue
      some (.ok (nameLen + 0 + 1, environment))
  | .error _ => some (.error .invalidFormat)
  | .ok nameLen =>
    if nameLen = 0 then some (.error .invalidFormat)
    else do
      let environment ← inSecondPass isSecondPass environment i
        (copyName environmentString strIndex nameLen)
      let valueLen ← strnlen8 environmentString (strIndex + nameLen + 1)
        (processEnvValueMaxlen + 1)
      if valueLen = processEnvValueMaxlen + 1 then some (.error .limitOverflowed)
      else do
        let environment ← inSecondPass isSecondPass environment i
          (copyValue environmentString (strIndex + nameLen + 1) valueLen)
        some (.ok (1 + (nameLen + valueLen + 1), environment))

/-- One pass over the variables which are left: `nVars`, and the environment. -/
def pass (environmentString : List Char) (isSecondPass : Bool) (i nVars strIndex : Nat)
    (environment : List EnvironmentVar) :
    (left : Nat) → Option (Except Kerror (Nat × List EnvironmentVar))
  | 0 => some (.ok (nVars, environment))
  | left + 1 => do
      let char ← environmentString[strIndex]?
      if char = nul then some (.ok (nVars, environment))
      else
        match ← parseVar environmentString isSecondPass i strIndex environment with
        | .error err => some (.error err)
        | .ok (length, environment) =>
          pass environmentString isSecondPass (i + 1) ((nVars + 1) % 2 ^ 8)
            ((strIndex + length) % 2 ^ 16) environment left

/-- The memory for the variables. An allocation of no bytes panics in
`MemReservoir::allocate`. -/
def allocate (kernel allocated : Bool) (nVars : Nat) (old : Nat → EnvironmentVar) :
    Option (Except Kerror (List EnvironmentVar)) :=
  if kernel then some (.ok ((List.range 16).map old))
  else if nVars = 0 then none
  else if allocated then some (.ok ((List.range nVars).map old))
  else some (.error .memoryNomem)

def maxNVars (kernel : Bool) : Nat :=
  if kernel then 16 else processEnvMaxNvars

def generateEnvironment (environmentString : List Char) (kernel allocated : Bool)
    (old : Nat → EnvironmentVar) : Option (Except Kerror (Nat × List EnvironmentVar)) := do
  match ← pass environmentString false 0 0 0 [] (maxNVars kernel) with
  | .error err => some (.error err)
  | .ok (nVars, _) =>
    match ← allocate kernel allocated nVars old with
    | .error err => some (.error err)
    | .ok environment =>
      match ← pass environmentString true 0 nVars 0 environment nVars with
      | .error err => some (.error err)
      | .ok (_, environment) => some (.ok (nVars, environment))

end

structure Variable where
  name : List Char
  value : List Char
  name_ne_nil : name ≠ []
  length_name : name.length ≤ processEnvNameMaxlen
  sign_notMem : '=' ∉ name
  nul_notMem : nul ∉ name
  length_value : value.length ≤ processEnvValueMaxlen
  nul_notMem_value : nul ∉ value

def Variable.Encodes (var : Variable) (piece : List Char) : Prop :=
  piece = var.name ++ '=' :: var.value ∨ var.value = [] ∧ piece = var.name

def closed (pieces : List (List Char)) (rest : List Char) : List Char :=
  pieces.flatMap (· ++ [nul]) ++ nul :: rest

def Encodes (vars : List Variable) (text : List Char) : Prop :=
  ∃ pieces, List.Forall₂ Variable.Encodes vars pieces ∧ text = closed pieces []

structure EnvironmentString where
  chars : List Char
  closed : chars = [nul] ∨ ∃ body, chars = body ++ [nul, nul]

/-- The pieces of a text up to its first empty one. `piece` has been read of the first. -/
def piecesFrom (piece : List Char) : List Char → List (List Char)
  | [] => []
  | char :: rest =>
    if char = nul then if piece = [] then [] else piece :: piecesFrom [] rest
    else piecesFrom (piece ++ [char]) rest

def makeVariable (name value : List Char) : Option Variable :=
  if h : name ≠ [] ∧ name.length ≤ processEnvNameMaxlen ∧ '=' ∉ name ∧ nul ∉ name ∧
      value.length ≤ processEnvValueMaxlen ∧ nul ∉ value then
    some ⟨name, value, h.1, h.2.1, h.2.2.1, h.2.2.2.1, h.2.2.2.2.1, h.2.2.2.2.2⟩
  else none

def variableOf (piece : List Char) : Option Variable :=
  let name := piece.takeWhile fun char => char ≠ '='
  makeVariable name (piece.drop (name.length + 1))

def leading (kernel : Bool) (text : List Char) : Option (List Variable) :=
  ((piecesFrom [] text).take (maxNVars kernel)).mapM variableOf

def Field.fill (field : Field size) (text : List Char) : Field size where
  chars := (text ++ nul :: field.chars.drop (text.length + 1)).take size
  length_eq := by
    simp [field.length_eq]
    omega

def EnvironmentVar.store (old : EnvironmentVar) (var : Variable) : EnvironmentVar :=
  ⟨old.name.fill var.name, old.value.fill var.value⟩

def stored (environment : List EnvironmentVar) (vars : List Variable) : List EnvironmentVar :=
  List.zipWith EnvironmentVar.store environment vars ++ environment.drop vars.length

def entries (kernel : Bool) (nVars : Nat) (old : Nat → EnvironmentVar) : List EnvironmentVar :=
  (List.range (if kernel then 16 else nVars)).map old

def Stores (environmentString : EnvironmentString) (kernel allocated : Bool)
    (old : Nat → EnvironmentVar) (vars : List Variable) : Prop :=
  generateEnvironment environmentString.chars kernel allocated old =
    some (.ok (vars.length, stored (entries kernel vars.length old) vars))

/-- A list of variables which is encoded is stored. Of any other text the leading variables are,
or it is an error. -/
def Faithful (environmentString : EnvironmentString) (kernel allocated : Bool)
    (old : Nat → EnvironmentVar) : Prop :=
  (∀ vars, vars.length ≤ maxNVars kernel → Encodes vars environmentString.chars →
      Stores environmentString kernel allocated old vars) ∧
    ((∃ err, generateEnvironment environmentString.chars kernel allocated old = some (.error err)) ∨
      ∃ vars, leading kernel environmentString.chars = some vars ∧
        Stores environmentString kernel allocated old vars)

/-- Another process than the kernel's has a variable, and memory for its variables where the text
encodes them. -/
def Good (environmentString : EnvironmentString) (kernel allocated : Bool) : Prop :=
  kernel = true ∨
    environmentString.chars.head? ≠ some nul ∧
      ((∃ vars, vars.length ≤ maxNVars kernel ∧ Encodes vars environmentString.chars) →
        allocated = true)

section

variable {size : Nat} {memory text rest : List Char} {start i : Nat} {isSecondPass : Bool}
  {environment : List EnvironmentVar}

theorem strncpy8_eq (hdrop : memory.drop start = text ++ rest) (hnul : nul ∉ text) :
    strncpy8 memory start text.length = some text := by
  have hlength := (@strnlenFrom_append memory text rest start 0 0 hnul hdrop).1
  rw [add_zero, zero_add] at hlength
  rw [strncpy8, strnlen8, hlength, strnlenFrom, hdrop, some_bind,
    take_left, Nat.sub_self, replicate_zero, append_nil]

theorem strlen8_eq (hdrop : memory.drop start = text ++ nul :: rest) (hnul : nul ∉ text) :
    strlen8 memory start = some text.length := by
  have hlength := congrArg length hdrop
  rw [strlen8, strnlen8_eq hnul hdrop, min_eq_left]
  simp at hlength
  omega

theorem Field.put_eq {index : Nat} (field : Field size) (h : index + text.length ≤ size) :
    ∃ next, field.put index text = some next ∧
      next.chars = field.chars.take index ++ (text ++ field.chars.drop (index + text.length)) :=
  ⟨_, dif_pos h, rfl⟩

theorem Field.fill_of_lt (field : Field size) (h : text.length < size) :
    (field.fill text).chars = text ++ nul :: field.chars.drop (text.length + 1) := by
  refine take_of_length_le ?_
  simp [field.length_eq]
  omega

theorem Field.fill_of_eq (field : Field size) (h : text.length = size) :
    (field.fill text).chars = text :=
  take_left' h

theorem Field.copy_eq (field : Field size) (hdrop : memory.drop start = text ++ rest)
    (hnul : nul ∉ text) (hle : text.length ≤ size) :
    field.copy memory start text.length = some (field.fill text) := by
  have hlength := field.length_eq
  obtain ⟨copied, hput, hchars⟩ := @Field.put_eq size text 0 field (by omega)
  rw [take_zero, nil_append, zero_add] at hchars
  rw [Field.copy, strncpy8_eq hdrop hnul, some_bind, hput, some_bind]
  split
  · next hlt =>
    obtain ⟨next, hnext, hterminated⟩ := @Field.put_eq size [nul] text.length copied hlt
    rw [hchars, take_left, ← drop_drop, drop_left, drop_drop] at hterminated
    refine hnext.trans (congrArg some (Field.ext ?_))
    rw [hterminated, Field.fill_of_lt field hlt]
    rfl
  · next hge =>
    refine congrArg some (Field.ext ?_)
    have heq : text.length = size := Nat.le_antisymm hle (Nat.le_of_not_lt hge)
    rw [hchars, Field.fill_of_eq field heq, drop_eq_nil_of_le (by omega), append_nil]

theorem emptyValue_eq (var : EnvironmentVar) :
    emptyValue var = some { var with value := var.value.fill [] } := by
  obtain ⟨next, hput, hchars⟩ := @Field.put_eq _ [nul] 0 var.value (by decide)
  have hfill : next = var.value.fill [] := by
    refine Field.ext (hchars.trans ?_)
    rw [Field.fill_of_lt var.value (show [].length < processEnvValueMaxlen by decide)]
    rfl
  rw [emptyValue, hput, hfill]
  rfl

def update (isSecondPass : Bool) (environment : List EnvironmentVar) (i : Nat)
    (change : EnvironmentVar → EnvironmentVar) : List EnvironmentVar :=
  if isSecondPass then environment.modify i change else environment

theorem inSecondPass_eq {write : EnvironmentVar → Option EnvironmentVar}
    {change : EnvironmentVar → EnvironmentVar} (hwrite : ∀ var, write var = some (change var))
    (hroom : isSecondPass = true → i < environment.length) :
    inSecondPass isSecondPass environment i write =
      some (update isSecondPass environment i change) := by
  cases isSecondPass with
  | false => rfl
  | true =>
    have hlt := hroom rfl
    rw [inSecondPass, if_pos rfl, getElem?_eq_getElem hlt, some_bind, hwrite, some_bind,
      update, if_pos rfl,
      modify_eq_take_cons_drop hlt, set_eq_take_append_cons_drop, if_pos hlt]

end

section

variable {memory piece name value rest : List Char} {strIndex i : Nat} {isSecondPass : Bool}
  {environment : List EnvironmentVar} {var : Variable}

theorem variableOf_append (hname : '=' ∉ name) :
    variableOf (name ++ '=' :: value) = makeVariable name value := by
  rw [variableOf, takeWhile_append hname, ← drop_drop, drop_left]
  rfl

theorem variableOf_of_notMem (hpiece : '=' ∉ piece) : variableOf piece = makeVariable piece [] := by
  rw [variableOf, takeWhile_of_notMem hpiece, drop_eq_nil_of_le (Nat.le_succ _)]

theorem makeVariable_eq_some (h : makeVariable name value = some var) :
    var.name = name ∧ var.value = value := by
  rw [makeVariable] at h
  split at h
  · cases h
    exact ⟨rfl, rfl⟩
  · cases h

theorem Variable.makeVariable_eq (var : Variable) : makeVariable var.name var.value = some var :=
  dif_pos ⟨var.name_ne_nil, var.length_name, var.sign_notMem, var.nul_notMem, var.length_value,
    var.nul_notMem_value⟩

theorem Variable.Encodes.variableOf (h : var.Encodes piece) : variableOf piece = some var := by
  rcases h with rfl | ⟨hvalue, rfl⟩
  · rw [variableOf_append var.sign_notMem, var.makeVariable_eq]
  · rw [variableOf_of_notMem var.sign_notMem, ← hvalue, var.makeVariable_eq]

theorem Variable.Encodes.isPiece (h : var.Encodes piece) : piece ≠ [] ∧ nul ∉ piece := by
  rcases h with rfl | ⟨-, rfl⟩
  · refine ⟨by simp, fun hmem => ?_⟩
    rcases mem_append.mp hmem with hname | hvalue
    · exact var.nul_notMem hname
    · rcases mem_cons.mp hvalue with hsign | hvalue
      · exact absurd hsign (by decide)
      · exact var.nul_notMem_value hvalue
  · exact ⟨var.name_ne_nil, var.nul_notMem⟩

theorem encodes_of_variableOf (h : variableOf piece = some var) : var.Encodes piece := by
  rcases exists_split '=' piece with hnone | ⟨name, value, rfl, hname⟩
  · rw [variableOf_of_notMem hnone] at h
    obtain ⟨hname, hvalue⟩ := makeVariable_eq_some h
    exact .inr ⟨hvalue, hname.symm⟩
  · rw [variableOf_append hname] at h
    obtain ⟨rfl, rfl⟩ := makeVariable_eq_some h
    exact .inl rfl

theorem update_update (change change' : EnvironmentVar → EnvironmentVar) :
    update isSecondPass (update isSecondPass environment i change) i change' =
      update isSecondPass environment i (change' ∘ change) := by
  cases isSecondPass with
  | false => rfl
  | true => exact modify_modify_eq ..

theorem length_update (change : EnvironmentVar → EnvironmentVar) :
    (update isSecondPass environment i change).length = environment.length := by
  cases isSecondPass with
  | false => rfl
  | true => exact length_modify ..

theorem parseVar_eq (hdrop : memory.drop strIndex = piece ++ nul :: rest)
    (hvar : var.Encodes piece) (hroom : isSecondPass = true → i < environment.length) :
    parseVar memory isSecondPass i strIndex environment =
      some (.ok (piece.length + 1,
        update isSecondPass environment i fun entry => entry.store var)) := by
  have hlength := var.length_name
  have hname : ∀ rest', memory.drop strIndex = var.name ++ rest' →
      inSecondPass isSecondPass environment i (copyName memory strIndex var.name.length) =
        some (update isSecondPass environment i fun entry =>
          { entry with name := entry.name.fill var.name }) := by
    intro rest' hrest
    refine inSecondPass_eq (fun entry => ?_) hroom
    rw [copyName, entry.name.copy_eq hrest var.nul_notMem hlength]
    rfl
  have hroom' : ∀ change, isSecondPass = true →
      i < (update isSecondPass environment i change).length := by
    intro change
    rw [length_update]
    exact hroom
  rw [parseVar]
  rcases hvar with rfl | ⟨hvalue, rfl⟩
  · rw [append_assoc, cons_append] at hdrop
    have hbehind : memory.drop (strIndex + var.name.length + 1) = var.value ++ nul :: rest := by
      rw [add_assoc, ← drop_drop, hdrop, ← drop_drop, drop_left]
      rfl
    have hle := var.length_value
    have hvalue : ∀ environment, (isSecondPass = true → i < length environment) →
        inSecondPass isSecondPass environment i
          (copyValue memory (strIndex + var.name.length + 1) var.value.length) =
            some (update isSecondPass environment i fun entry =>
              { entry with value := entry.value.fill var.value }) := by
      refine fun environment => inSecondPass_eq fun entry => ?_
      rw [copyValue, entry.value.copy_eq hbehind var.nul_notMem_value hle]
      rfl
    rw [getIndexOfNext_found var.nul_notMem var.sign_notMem (by decide) hdrop
      (Nat.lt_succ_of_le hlength), some_bind]
    dsimp only
    rw [if_neg fun h => var.name_ne_nil (length_eq_zero_iff.mp h), hname _ hdrop,
      some_bind, strnlen8_eq var.nul_notMem_value hbehind,
      min_eq_left (Nat.le_succ_of_le hle), some_bind,
      if_neg (by omega), hvalue _ (hroom' _), some_bind, update_update, length_append,
      length_cons, show 1 + (var.name.length + var.value.length + 1) =
        var.name.length + (var.value.length + 1) + 1 by omega]
    rfl
  · rw [getIndexOfNext_end var.nul_notMem var.sign_notMem hdrop (Nat.lt_succ_of_le hlength),
      some_bind]
    rw [strlen8_eq hdrop var.nul_notMem, some_bind, hname _ hdrop,
      some_bind, inSecondPass_eq emptyValue_eq (hroom' _), some_bind, update_update, ← hvalue]
    rfl

theorem parseVar_of_none (hdrop : memory.drop strIndex = piece ++ nul :: rest)
    (hpiece : piece ≠ [] ∧ nul ∉ piece) (hnone : variableOf piece = none) :
    ∃ err, parseVar memory false i strIndex environment = some (.error err) := by
  rw [parseVar]
  rcases exists_split '=' piece with hsign | ⟨name, value, rfl, hname⟩
  · rcases lt_or_ge processEnvNameMaxlen piece.length with hlt | hge
    · rw [getIndexOfNext_limit hpiece.2 hsign hdrop hlt]
      exact ⟨_, rfl⟩
    · rw [variableOf_of_notMem hsign, makeVariable, dif_pos ⟨hpiece.1, hge, hsign, hpiece.2,
        Nat.zero_le _, not_mem_nil⟩] at hnone
      cases hnone
  obtain ⟨hnul, hvalue⟩ := not_or.mp fun hmem => hpiece.2 (mem_append.mpr hmem)
  have hnul' : nul ∉ value := fun hmem => hvalue (mem_cons_of_mem _ hmem)
  rw [append_assoc, cons_append] at hdrop
  rcases lt_or_ge processEnvNameMaxlen name.length with hlt | hge
  · rw [getIndexOfNext_limit hnul hname hdrop hlt]
    exact ⟨_, rfl⟩
  have hbehind : memory.drop (strIndex + name.length + 1) = value ++ nul :: rest := by
    rw [add_assoc, ← drop_drop, hdrop, ← drop_drop, drop_left]
    rfl
  rw [getIndexOfNext_found hnul hname (by decide) hdrop (Nat.lt_succ_of_le hge),
    some_bind]
  dsimp only
  split
  · exact ⟨_, rfl⟩
  next hpos =>
  rw [strnlen8_eq hnul' hbehind]
  rcases lt_or_ge processEnvValueMaxlen value.length with hlong | hshort
  · rw [min_eq_right hlong]
    exact ⟨_, rfl⟩
  · rw [variableOf_append hname, makeVariable, dif_pos ⟨fun h => hpos (by rw [h]; rfl), hge,
      hname, hnul, hshort, hnul'⟩] at hnone
    cases hnone

end

section

variable {memory rest : List Char} {pieces : List (List Char)} {strIndex i nVars left : Nat}
  {isSecondPass : Bool} {environment front : List EnvironmentVar} {vars : List Variable}

def ArePieces (pieces : List (List Char)) : Prop :=
  ∀ piece ∈ pieces, piece ≠ [] ∧ nul ∉ piece

theorem closed_cons (piece : List Char) (pieces : List (List Char)) (rest : List Char) :
    closed (piece :: pieces) rest = piece ++ nul :: closed pieces rest := by
  rw [closed, flatMap_cons, append_assoc, append_assoc]
  rfl

theorem piecesFrom_append {piece front : List Char} (hnul : nul ∉ front) (rest : List Char) :
    piecesFrom piece (front ++ rest) = piecesFrom (piece ++ front) rest := by
  induction front generalizing piece with
  | nil => rw [append_nil, nil_append]
  | cons char front ih =>
    obtain ⟨hchar, hfront⟩ := not_or.mp fun hmem => hnul (mem_cons.mpr hmem)
    rw [cons_append, piecesFrom, if_neg fun h => hchar h.symm, ih hfront, append_assoc]
    rfl

theorem piecesFrom_closed (hpieces : ArePieces pieces) :
    piecesFrom [] (closed pieces rest) = pieces := by
  induction pieces with
  | nil => rw [closed, flatMap_nil, nil_append, piecesFrom, if_pos rfl, if_pos rfl]
  | cons piece pieces ih =>
    obtain ⟨hpiece, hothers⟩ := forall_mem_cons.mp hpieces
    rw [closed_cons, piecesFrom_append hpiece.2, nil_append, piecesFrom, if_pos rfl,
      if_neg hpiece.1, ih hothers]

theorem exists_closed {piece : List Char} (hpiece : nul ∉ piece) (body : List Char) :
    ∃ rest, piece ++ body ++ [nul, nul] = closed (piecesFrom piece (body ++ [nul, nul])) rest ∧
      ArePieces (piecesFrom piece (body ++ [nul, nul])) := by
  induction body generalizing piece with
  | nil =>
    rw [nil_append, piecesFrom, if_pos rfl]
    split
    · next hnil => exact ⟨[nul], by rw [hnil]; rfl, forall_mem_nil _⟩
    · next hne =>
      refine ⟨[], ?_, forall_mem_cons.mpr ⟨⟨hne, hpiece⟩, forall_mem_nil _⟩⟩
      rw [closed_cons, append_nil]
      rfl
  | cons char body ih =>
    rw [cons_append, piecesFrom]
    split
    · next hchar =>
      subst hchar
      split
      · next hnil =>
        exact ⟨body ++ [nul, nul], by rw [hnil]; rfl, forall_mem_nil _⟩
      next hne =>
      obtain ⟨rest, htext, hpieces⟩ := @ih [] not_mem_nil
      refine ⟨rest, ?_, forall_mem_cons.mpr ⟨⟨hne, hpiece⟩, hpieces⟩⟩
      rw [closed_cons, ← htext, append_assoc]
      rfl
    · next hchar =>
      have hnul : nul ∉ piece ++ [char] := fun hmem => by
        rcases mem_append.mp hmem with h | h
        · exact hpiece h
        · exact hchar (mem_singleton.mp h).symm
      obtain ⟨rest, htext, hpieces⟩ := @ih (piece ++ [char]) hnul
      refine ⟨rest, ?_, hpieces⟩
      rw [← htext, append_assoc piece [char]]
      rfl

/-- What is made of the environment from its entry `i` on. -/
def updates (isSecondPass : Bool) (environment : List EnvironmentVar) (i : Nat) :
    List Variable → List EnvironmentVar
  | [] => environment
  | var :: vars =>
    updates isSecondPass (update isSecondPass environment i fun entry => entry.store var)
      (i + 1) vars

theorem updates_firstPass : updates false environment i vars = environment := by
  induction vars generalizing i with
  | nil => rfl
  | cons var vars ih => exact ih

theorem updates_secondPass (hle : vars.length ≤ environment.length) :
    updates true (front ++ environment) front.length vars = front ++ stored environment vars := by
  induction vars generalizing front environment with
  | nil => simp [updates, stored]
  | cons var vars ih =>
    cases environment with
    | nil => exact absurd hle (Nat.not_succ_le_zero _)
    | cons entry environment =>
      have hlength : (front ++ [entry.store var]).length = front.length + 1 :=
        length_append
      have hrest := @ih environment (front ++ [entry.store var]) (Nat.le_of_succ_le_succ hle)
      have hupdate : update true (front ++ entry :: environment) front.length
          (fun entry => entry.store var) = front ++ [entry.store var] ++ environment := by
        rw [update, if_pos rfl, modify_eq_take_cons_drop (by simp), take_left]
        simp
      rw [updates, hupdate, ← hlength, hrest, append_assoc]
      rfl

theorem length_variable {piece : List Char} {var : Variable} (h : var.Encodes piece) :
    piece.length + 1 ≤ 610 := by
  have hname := var.length_name
  have hvalue := var.length_value
  simp only [processEnvNameMaxlen, processEnvValueMaxlen] at hname hvalue
  rcases h with rfl | ⟨-, rfl⟩
  · rw [length_append, length_cons]
    omega
  · omega

theorem exists_of_mapM_take {piece : List Char}
    (h : ((piece :: pieces).take (left + 1)).mapM variableOf = some vars) :
    ∃ var others, variableOf piece = some var ∧
      (pieces.take left).mapM variableOf = some others ∧ vars = var :: others := by
  rw [take_succ_cons, mapM_cons] at h
  obtain ⟨var, hvar, h⟩ := Option.bind_eq_some_iff.mp h
  obtain ⟨others, hothers, h⟩ := Option.bind_eq_some_iff.mp h
  exact ⟨var, others, hvar, hothers, (Option.some.inj h).symm⟩

theorem drop_of_piece {piece : List Char} (hdrop : memory.drop strIndex = piece ++ nul :: rest) :
    memory.drop (strIndex + (piece.length + 1)) = rest := by
  rw [← drop_drop, hdrop, ← drop_drop, drop_left]
  rfl

theorem exists_read {piece : List Char} (hpiece : piece ≠ [] ∧ nul ∉ piece)
    (hdrop : memory.drop strIndex = piece ++ nul :: rest) :
    ∃ char, char ≠ nul ∧ memory[strIndex]? = some char := by
  obtain ⟨char, tail, rfl⟩ := exists_cons_of_ne_nil hpiece.1
  exact ⟨char, fun h => hpiece.2 (h ▸ mem_cons_self), getElem?_of_drop hdrop⟩

theorem pass_eq (hdrop : memory.drop strIndex = closed pieces rest) (hpieces : ArePieces pieces)
    (hvars : (pieces.take left).mapM variableOf = some vars)
    (hroom : isSecondPass = true → i + vars.length ≤ environment.length)
    (hindex : strIndex + 610 * left < 2 ^ 16) (hcount : nVars + left < 2 ^ 8) :
    pass memory isSecondPass i nVars strIndex environment left =
      some (.ok (nVars + vars.length, updates isSecondPass environment i vars)) := by
  induction left generalizing pieces strIndex i nVars environment vars with
  | zero =>
    cases hvars
    rfl
  | succ left ih =>
    cases pieces with
    | nil =>
      cases hvars
      rw [pass, getElem?_of_drop hdrop]
      rfl
    | cons piece pieces =>
      obtain ⟨hpiece, hothers⟩ := forall_mem_cons.mp hpieces
      obtain ⟨var, vars', hvar, hvars', rfl⟩ := exists_of_mapM_take hvars
      rw [closed_cons] at hdrop
      have hencodes := encodes_of_variableOf hvar
      have hlength := length_variable hencodes
      have hnext := drop_of_piece hdrop
      obtain ⟨char, hchar, hread⟩ := exists_read hpiece hdrop
      have hparse := @parseVar_eq memory piece (closed pieces rest) strIndex i isSecondPass
        environment var hdrop hencodes fun hsecond => by
          have hle := hroom hsecond
          rw [length_cons] at hle
          omega
      rw [pass, hread, some_bind, if_neg hchar, hparse, some_bind]
      dsimp only
      rw [Nat.mod_eq_of_lt (by omega), Nat.mod_eq_of_lt (by omega), ih hnext hothers hvars'
        (fun hsecond => by
          have hle := hroom hsecond
          rw [length_cons] at hle
          rw [length_update]
          omega) (by omega) (by omega), length_cons, add_assoc, add_comm 1]
      rfl

theorem pass_of_none (hdrop : memory.drop strIndex = closed pieces rest)
    (hpieces : ArePieces pieces) (hvars : (pieces.take left).mapM variableOf = none)
    (hindex : strIndex + 610 * left < 2 ^ 16) :
    ∃ err, pass memory false i nVars strIndex environment left = some (.error err) := by
  induction left generalizing pieces strIndex i nVars environment with
  | zero => cases hvars
  | succ left ih =>
    cases pieces with
    | nil => cases hvars
    | cons piece pieces =>
      obtain ⟨hpiece, hothers⟩ := forall_mem_cons.mp hpieces
      rw [closed_cons] at hdrop
      obtain ⟨char, hchar, hread⟩ := exists_read hpiece hdrop
      rw [pass, hread, some_bind, if_neg hchar]
      rw [take_succ_cons, mapM_cons] at hvars
      cases hvar : variableOf piece with
      | none =>
        obtain ⟨err, herr⟩ := @parseVar_of_none memory piece (closed pieces rest) strIndex i
          environment hdrop hpiece hvar
        rw [herr]
        exact ⟨err, rfl⟩
      | some var =>
        have hencodes := encodes_of_variableOf hvar
        have hlength := length_variable hencodes
        have hnone : (pieces.take left).mapM variableOf = none := by
          rw [hvar] at hvars
          cases hothers : (pieces.take left).mapM variableOf with
          | none => rfl
          | some vars =>
            rw [hothers] at hvars
            cases hvars
        rw [@parseVar_eq memory piece (closed pieces rest) strIndex i false environment var
          hdrop hencodes nofun, some_bind]
        dsimp only
        rw [Nat.mod_eq_of_lt (show strIndex + (piece.length + 1) < 2 ^ 16 by omega)]
        exact ih (drop_of_piece hdrop) hothers hnone (by omega)

end

section

variable {environmentString : EnvironmentString} {pieces : List (List Char)}
  {vars : List Variable} {kernel allocated : Bool} {old : Nat → EnvironmentVar}

theorem mapM_variableOf_iff :
    pieces.mapM variableOf = some vars ↔ List.Forall₂ Variable.Encodes vars pieces := by
  induction pieces generalizing vars with
  | nil =>
    rw [forall₂_nil_right_iff]
    exact ⟨fun h => (Option.some.inj h).symm, fun h => congrArg some h.symm⟩
  | cons piece pieces ih =>
    rw [mapM_cons]
    constructor
    · intro h
      obtain ⟨var, hvar, h⟩ := Option.bind_eq_some_iff.mp h
      obtain ⟨others, hothers, h⟩ := Option.bind_eq_some_iff.mp h
      cases h
      exact .cons (encodes_of_variableOf hvar) (ih.mp hothers)
    · rintro (_ | ⟨hvar, hothers⟩)
      rw [hvar.variableOf, ih.mpr hothers]
      rfl

theorem exists_closed_chars (environmentString : EnvironmentString) :
    ∃ rest, environmentString.chars = closed (piecesFrom [] environmentString.chars) rest ∧
      ArePieces (piecesFrom [] environmentString.chars) := by
  rcases environmentString.closed with hnul | ⟨body, hbody⟩
  · rw [hnul]
    exact ⟨[], rfl, forall_mem_nil _⟩
  · rw [hbody]
    exact exists_closed not_mem_nil body

theorem arePieces_of_encodes (h : List.Forall₂ Variable.Encodes vars pieces) :
    ArePieces pieces := by
  induction h with
  | nil => exact forall_mem_nil _
  | cons hvar _ ih => exact forall_mem_cons.mpr ⟨hvar.isPiece, ih⟩

theorem Encodes.leading (h : Encodes vars environmentString.chars)
    (hle : vars.length ≤ maxNVars kernel) : leading kernel environmentString.chars = some vars := by
  obtain ⟨pieces, hencodes, htext⟩ := h
  rw [ProcessEnvironment.leading, htext, piecesFrom_closed (arePieces_of_encodes hencodes),
    take_of_length_le (hencodes.length_eq ▸ hle), mapM_variableOf_iff]
  exact hencodes

theorem piecesFrom_of_nul {text : List Char} (h : text.head? = some nul) :
    piecesFrom [] text = [] := by
  obtain ⟨rest, rfl⟩ := head?_eq_some_iff.mp h
  rw [piecesFrom, if_pos rfl, if_pos rfl]

theorem maxNVars_le (kernel : Bool) : maxNVars kernel ≤ 64 := by
  cases kernel <;> decide

theorem length_entries (hle : vars.length ≤ maxNVars kernel) :
    vars.length ≤ (entries kernel vars.length old).length := by
  rw [entries, length_map, length_range]
  split
  · next hkernel =>
    rw [maxNVars, if_pos hkernel] at hle
    exact hle
  · exact le_refl _

theorem generateEnvironment_eq (hvars : leading kernel environmentString.chars = some vars) :
    generateEnvironment environmentString.chars kernel allocated old =
      if kernel = false ∧ vars = [] then none
      else if kernel = false ∧ allocated = false then some (.error .memoryNomem)
      else some (.ok (vars.length, stored (entries kernel vars.length old) vars)) := by
  obtain ⟨rest, htext, hpieces⟩ := exists_closed_chars environmentString
  have hmax := maxNVars_le kernel
  have hlength := (mapM_variableOf_iff.mp hvars).length_eq
  rw [length_take] at hlength
  have hle : vars.length ≤ maxNVars kernel := hlength ▸ min_le_left _ _
  have htake : (piecesFrom [] environmentString.chars).take vars.length =
      (piecesFrom [] environmentString.chars).take (maxNVars kernel) := by
    rcases le_total (maxNVars kernel) (piecesFrom [] environmentString.chars).length with h | h
    · rw [hlength, min_eq_left h]
    · rw [hlength, min_eq_right h, take_length, take_of_length_le h]
  have hfirst := @pass_eq environmentString.chars rest (piecesFrom [] environmentString.chars) 0 0 0
    (maxNVars kernel) false [] vars htext hpieces hvars nofun (by omega) (by omega)
  have hsecond := @pass_eq environmentString.chars rest (piecesFrom [] environmentString.chars) 0 0
    vars.length vars.length true (entries kernel vars.length old) vars htext hpieces
    (by rw [htake]; exact hvars) (fun _ => by rw [zero_add]; exact length_entries hle)
    (by omega) (by omega)
  rw [zero_add, updates_firstPass] at hfirst
  have hupdates := @updates_secondPass (entries kernel vars.length old) [] vars (length_entries hle)
  rw [nil_append, nil_append, length_nil] at hupdates
  rw [hupdates] at hsecond
  rw [generateEnvironment, hfirst, some_bind]
  dsimp only
  cases kernel with
  | true =>
    change Option.bind (pass _ true 0 _ 0 (entries true vars.length old) _) _ = _
    rw [hsecond]
    rfl
  | false =>
    rcases eq_or_ne vars [] with rfl | hne
    · rfl
    have hpos : ¬ vars.length = 0 := fun h => hne (length_eq_zero_iff.mp h)
    have hsome : ¬ (false = false ∧ vars = []) := fun h => hne h.2
    rw [allocate, if_neg Bool.false_ne_true, if_neg hpos, if_neg hsome]
    cases allocated with
    | false => rfl
    | true =>
      change Option.bind (pass _ true 0 _ 0 (entries false vars.length old) _) _ = _
      rw [hsecond]
      rfl

theorem generateEnvironment_of_none (hnone : leading kernel environmentString.chars = none) :
    ∃ err, generateEnvironment environmentString.chars kernel allocated old =
      some (.error err) := by
  obtain ⟨rest, htext, hpieces⟩ := exists_closed_chars environmentString
  have hmax := maxNVars_le kernel
  obtain ⟨err, herr⟩ := @pass_of_none environmentString.chars rest
    (piecesFrom [] environmentString.chars) 0 0 0 (maxNVars kernel) [] htext hpieces hnone
    (by omega)
  refine ⟨err, ?_⟩
  rw [generateEnvironment, herr]
  rfl

theorem head?_of_leading_nil (h : leading kernel environmentString.chars = some []) :
    environmentString.chars.head? = some nul := by
  obtain ⟨rest, htext, -⟩ := exists_closed_chars environmentString
  have htake := forall₂_nil_left_iff.mp (mapM_variableOf_iff.mp h)
  rcases take_eq_nil_iff.mp htake with hzero | hnil
  · rw [maxNVars] at hzero
    split at hzero <;> cases hzero
  · rw [hnil] at htext
    rw [htext]
    rfl

/-- The environment is what its string says exactly when the string is good. -/
theorem faithful_iff_good (environmentString : EnvironmentString) (kernel allocated : Bool)
    (old : Nat → EnvironmentVar) : Faithful environmentString kernel allocated old ↔
      Good environmentString kernel allocated := by
  rw [Faithful, Good]
  cases hleading : leading kernel environmentString.chars with
  | none =>
    have herror := @generateEnvironment_of_none environmentString kernel allocated old hleading
    have hnone : ∀ vars, vars.length ≤ maxNVars kernel →
        ¬ Encodes vars environmentString.chars := by
      intro vars hle hencodes
      cases hleading.symm.trans (hencodes.leading hle)
    refine iff_of_true ⟨fun vars hle hencodes => absurd hencodes (hnone vars hle),
      .inl herror⟩ (.inr ⟨fun hnul => ?_, fun h => ?_⟩)
    · rw [leading, piecesFrom_of_nul hnul, take_nil] at hleading
      cases hleading
    · obtain ⟨vars, hle, hencodes⟩ := h
      exact absurd hencodes (hnone vars hle)
  | some vars =>
    have hunique : ∀ vars', vars'.length ≤ maxNVars kernel →
        Encodes vars' environmentString.chars → vars' = vars := by
      intro vars' hle hencodes
      exact Option.some.inj ((hencodes.leading hle).symm.trans hleading)
    have hgenerate := @generateEnvironment_eq environmentString vars kernel allocated old hleading
    constructor
    · rintro ⟨hstored, hresult⟩
      cases kernel with
      | true => exact .inl rfl
      | false =>
        refine .inr ⟨fun hnul => ?_, ?_⟩
        · rw [leading, piecesFrom_of_nul hnul] at hleading
          cases hleading
          rcases hresult with ⟨err, herr⟩ | ⟨vars, -, hvars⟩
          · cases hgenerate.symm.trans herr
          · cases hgenerate.symm.trans hvars
        · rintro ⟨vars', hle, hencodes⟩
          have hvars := hgenerate.symm.trans (hstored vars' hle hencodes)
          split at hvars
          · cases hvars
          split at hvars
          · cases hvars
          · next hallocated => simpa using hallocated
    · intro hgood
      have hsome : ¬ (kernel = false ∧ vars = []) := by
        rintro ⟨hkernel, rfl⟩
        obtain ⟨hne, -⟩ := hgood.resolve_left (by rw [hkernel]; exact Bool.false_ne_true)
        exact hne (head?_of_leading_nil hleading)
      rw [if_neg hsome] at hgenerate
      split at hgenerate
      · next hrefused =>
        obtain ⟨hkernel, hallocated⟩ := hrefused
        obtain ⟨-, hencoded⟩ := hgood.resolve_left (by rw [hkernel]; exact Bool.false_ne_true)
        refine ⟨fun vars' hle hencodes => ?_, .inl ⟨_, hgenerate⟩⟩
        cases hallocated.symm.trans (hencoded ⟨vars', hle, hencodes⟩)
      · refine ⟨fun vars' hle hencodes => ?_, .inr ⟨vars, rfl, hgenerate⟩⟩
        rw [hunique vars' hle hencodes]
        exact hgenerate

theorem noVariables_not_faithful :
    ¬ Faithful ⟨[nul], .inl rfl⟩ false true fun _ =>
      ⟨⟨List.replicate 96 nul, List.length_replicate⟩,
        ⟨List.replicate 512 nul, List.length_replicate⟩⟩ := by
  rintro ⟨hstored, -⟩
  cases (hstored [] (Nat.zero_le _) ⟨[], .nil, rfl⟩).symm.trans rfl

end

end Zambesii.ProcessEnvironment
