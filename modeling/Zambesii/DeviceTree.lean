import Mathlib.Data.Nat.Digits.Lemmas
import Zambesii.KernelTypes
import Zambesii.Runs

/-!
The device tree: `Floodplainn::createDevice` and `Floodplainn::removeDevice` on the tags of
the by-id tree.
-/

namespace Zambesii.DeviceTree

open Function List Nat Option
open KernelTypes Runs

def fvfsTagNameMaxlen : Nat := 32

/-- The digits of a number, as `sprintnum` prints them in base 10. -/
def decimal (num : Nat) : List Char :=
  if num = 0 then ['0'] else (Nat.digits 10 num).reverse.map Nat.digitChar

def printD (num : UInt32) : List Char :=
  if num.toNat < 2 ^ 31 then decimal num.toNat else '-' :: decimal (2 ^ 32 - num.toNat)

theorem decimal_injective : Function.Injective decimal := by
  -- The value of the digits read back.
  have hinverse : Function.LeftInverse
      (fun name => ofDigits 10 (name.reverse.map fun c => c.toNat - 48)) decimal := by
    intro num
    rw [decimal]
    split
    · rename_i hzero
      rw [hzero]
      rfl
    have hdigits : ((digits 10 num).map digitChar).map (fun c => c.toNat - 48) =
        digits 10 num := by
      rw [List.map_map]
      conv_rhs => rw [← map_id (digits 10 num)]
      refine map_congr_left fun digit hdigit => ?_
      have hlt : digit < 10 := digits_lt_base (by decide) hdigit
      interval_cases digit <;> rfl
    dsimp only
    rw [← map_reverse, reverse_reverse, hdigits, ofDigits_digits]
  exact hinverse.injective

theorem isDigit_of_mem_decimal {num : Nat} {c : Char} (h : c ∈ decimal num) : c.isDigit = true := by
  rw [decimal] at h
  split at h
  · rw [mem_singleton.mp h]
    rfl
  · obtain ⟨digit, hdigit, rfl⟩ := mem_map.mp h
    have hlt : digit < 10 := digits_lt_base (by decide) (mem_reverse.mp hdigit)
    interval_cases digit <;> rfl

theorem decimal_ne_nil (num : Nat) : decimal num ≠ [] := by
  rw [decimal]
  split
  · exact cons_ne_nil _ _
  · rename_i hnum
    rw [Ne, map_eq_nil_iff, reverse_eq_nil_iff]
    exact digits_ne_nil_iff_ne_zero.mpr hnum

theorem printD_of_lt {num : UInt32} (h : num.toNat < 2 ^ 31) : printD num = decimal num.toNat :=
  if_pos h

theorem printD_ne_nil (num : UInt32) : printD num ≠ [] := by
  rw [printD]
  split
  · exact decimal_ne_nil _
  · exact cons_ne_nil _ _

theorem decimal_ne_minus (num : Nat) (rest : List Char) : decimal num ≠ '-' :: rest := by
  intro h
  have hdigit : '-'.isDigit = true := isDigit_of_mem_decimal (h ▸ mem_cons_self)
  exact absurd hdigit (by decide)

theorem printD_injective : Function.Injective printD := by
  intro num num' h
  refine UInt32.toNat_inj.mp ?_
  have hlt' := num'.toNat_lt
  rw [printD, printD] at h
  split at h <;> split at h
  · exact decimal_injective h
  · exact absurd h (decimal_ne_minus _ _)
  · exact absurd h.symm (decimal_ne_minus _ _)
  · have hsub := decimal_injective (cons.inj h).2
    omega

theorem mem_printD {num : UInt32} {c : Char} (h : c ∈ printD num) : c = '-' ∨ c.isDigit = true := by
  rw [printD] at h
  split at h
  · exact .inr (isDigit_of_mem_decimal h)
  · rcases mem_cons.mp h with rfl | hrest
    · exact .inl rfl
    · exact .inr (isDigit_of_mem_decimal hrest)

structure Tag where
  name : List Char
  inode : Nat
deriving DecidableEq

/-- The live devices, each with its `dirs`. `born` records the parent and the child id that a
device was created with. -/
structure Tree where
  dirs : Nat → Option (List Tag)
  nextDevice : Nat
  born : Nat → Option (Nat × UInt32)

def rootDevice : Nat := 0

/-- The tree once `Floodplainn::initialize` has made its nodes. -/
def initialTree : Tree where
  dirs := fun device =>
    if device = rootDevice then
      some [⟨"by-path".toList, 4⟩, ⟨"by-class".toList, 3⟩, ⟨"by-name".toList, 2⟩,
        ⟨"by-id".toList, 1⟩]
    else if device < 5 then some [] else none
  nextDevice := 5
  born := fun _ => none

/-- The path behind its slashes and its `@f/`. -/
def discardPrefix (path : List Char) : List Char :=
  let path := path.dropWhile (· = '/')
  if "@f/".toList.isPrefixOf path then path.drop 3 else path

def isByIdPath (path : List Char) : Bool :=
  "by-id".toList.isPrefixOf ((discardPrefix path).dropWhile (· = '/'))

def getDirTag (dirs : List Tag) (name : List Char) : Option Tag :=
  if name = [] then none else dirs.find? fun currItem => currItem.name = name

/-- The loop of `fvfs::Currentt::getPath`, from the device of `currTag`. Each round but the last
takes at least a slash off the path. A device that was deleted is a fault. -/
def getPathFrom (tree : Tree) : (fuel : Nat) → (currTag : Nat) → List Char →
    Option (Except Kerror Nat)
  | 0, _, _ => some (.error .notFound)
  | fuel + 1, currTag, path =>
    if path = [] ∧ currTag ≠ rootDevice then some (.ok currTag)
    else
      let segment := path.takeWhile (· ≠ '/')
      -- `nextSlash`, among the first characters only.
      if segment.length < fvfsTagNameMaxlen ∧ segment.length < path.length then
        if segment.length = 0 then getPathFrom tree fuel currTag (path.drop 1)
        else
          match tree.dirs currTag with
          | none => none
          | some dirs =>
            match getDirTag dirs segment with
            | none => some (.error .notFound)
            | some tag => getPathFrom tree fuel tag.inode (path.drop (segment.length + 1))
      else if fvfsTagNameMaxlen ≤ path.length then some (.error .invalidResourceName)
      else
        match tree.dirs currTag with
        | none => none
        | some dirs =>
          match getDirTag dirs path with
          | none => some (.error .notFound)
          | some tag => some (.ok tag.inode)

/-- `fvfs::Currentt::getPath`, with the device of the tag that it finds. -/
def getPath (tree : Tree) (path : List Char) : Option (Except Kerror Nat) :=
  let path := discardPrefix path
  if path = [] then some (.error .notFound)
  else getPathFrom tree (path.length + 1) rootDevice path

def parentOf (tree : Tree) : Option (List Char) → Option (Except Kerror Nat)
  | none => some (.error .invalidArg)
  | some path =>
    if isByIdPath path then getPath tree path else some (.error .invalidArgVal)

def Tree.setDirs (tree : Tree) (device : Nat) (dirs : Option (List Tag)) : Tree :=
  { tree with dirs := update tree.dirs device dirs }

def removeDirTag (dirs : List Tag) (name : List Char) : List Tag :=
  dirs.eraseP fun currItem => currItem.name = name

/-- What the allocations of a creation return, and `Device::initialize`. -/
structure Outcome where
  newDev : Bool
  ret : Kerror
  tag : Bool
  node : Bool
  parentTag : Bool
deriving DecidableEq

def createChild (tree : Tree) (parent : Nat) (name : List Char) (device : Nat) (outcome : Outcome) :
    Option (Kerror × Tree) :=
  match tree.dirs parent with
  | none => none
  | some dirs =>
    if name = [] then some (.invalidArgVal, tree)
    else if outcome.tag = false then some (.memoryNomem, tree)
    else if outcome.node = false then some (.memoryNomem, tree)
    else
      let dirs := ⟨name, device⟩ :: dirs
      if outcome.parentTag = false then
        some (.memoryNomem, tree.setDirs parent (some (removeDirTag dirs name)))
      else some (.success, tree.setDirs parent (some dirs))

/-- What a call returns, and what `createDevice` stores in `*device`. -/
structure Answer where
  err : Kerror
  device : Option Nat
deriving DecidableEq

def createDeviceUnder (tree : Tree) (parent : Nat) (childId : UInt32) (outcome : Outcome) :
    Option (Answer × Tree) :=
  if outcome.newDev = false then some (⟨.memoryNomem, none⟩, tree)
  else
    let newDev := tree.nextDevice
    let tree := { tree.setDirs newDev (some []) with nextDevice := newDev + 1 }
    if outcome.ret ≠ .success then some (⟨outcome.ret, none⟩, tree)
    else
      -- The parameter is a `ubit16`.
      match createChild tree parent (printD childId.toUInt16.toUInt32) newDev outcome with
      | none => none
      | some (ret, tree) =>
        let tree :=
          if ret ≠ .success then tree.setDirs newDev none
          else { tree with born := update tree.born newDev (some (parent, childId)) }
        some (⟨.success, some newDev⟩, tree)

/-- `Floodplainn::createDevice`; `device` says that the pointer is not null. -/
def createDevice (tree : Tree) (parentId : Option (List Char)) (childId : UInt32) (device : Bool)
    (outcome : Outcome) : Option (Answer × Tree) :=
  if device = false then some (⟨.invalidArg, none⟩, tree)
  else
    match parentOf tree parentId with
    | none => none
    | some (.error ret) => some (⟨ret, none⟩, tree)
    | some (.ok parent) => createDeviceUnder tree parent childId outcome

def removeDeviceUnder (tree : Tree) (parent : Nat) (childId : UInt32) : Option (Answer × Tree) :=
  match tree.dirs parent with
  | none => none
  | some dirs =>
    match getDirTag dirs (printD childId) with
    | none => some (⟨.notFound, none⟩, tree)
    | some childTag =>
      match tree.dirs childTag.inode with
      | none => none
      | some (_ :: _) => some (⟨.invalidOperation, none⟩, tree)
      | some [] =>
        let tree := tree.setDirs childTag.inode none
        match tree.dirs parent with
        | none => none
        | some dirs =>
          some (⟨.success, none⟩, tree.setDirs parent (some (removeDirTag dirs (printD childId))))

def removeDevice (tree : Tree) (parentId : Option (List Char)) (childId : UInt32) :
    Option (Answer × Tree) :=
  match parentOf tree parentId with
  | none => none
  | some (.error ret) => some (⟨ret, none⟩, tree)
  | some (.ok parent) => removeDeviceUnder tree parent childId

inductive Call
  | create (parentId : Option (List Char)) (childId : UInt32) (device : Bool) (outcome : Outcome)
  | remove (parentId : Option (List Char)) (childId : UInt32)

def step (tree : Tree) : Call → Option (Answer × Tree)
  | .create parentId childId device outcome => createDevice tree parentId childId device outcome
  | .remove parentId childId => removeDevice tree parentId childId

def NodupNames (tree : Tree) : Prop :=
  ∀ device dirs, tree.dirs device = some dirs → (dirs.map Tag.name).Nodup

structure Added (tree next : Tree) (parent : Nat) (name : List Char) (device : Nat) : Prop where
  fresh : tree.dirs device = none
  live : next.dirs device = some []
  child : ∃ dirs, tree.dirs parent = some dirs ∧ next.dirs parent = some (⟨name, device⟩ :: dirs)
  frame : ∀ other, other ≠ device → other ≠ parent → next.dirs other = tree.dirs other

structure Removed (tree next : Tree) (parent device : Nat) : Prop where
  deleted : next.dirs device = none
  child : ∃ dirs, tree.dirs parent = some dirs ∧
    next.dirs parent = some (dirs.filter fun tag => tag.inode ≠ device)
  frame : ∀ other, other ≠ device → other ≠ parent → next.dirs other = tree.dirs other

def Unchanged (tree next : Tree) : Prop :=
  ∀ device, tree.dirs device ≠ none → next.dirs device = tree.dirs device

/-- Success says that the child was added and that `*device` is it; an error changes nothing and
stores no deleted device. -/
structure CreateSpec (tree : Tree) (parentId : Option (List Char)) (childId : UInt32)
    (answer : Answer) (next : Tree) : Prop where
  success_iff : answer.err = .success ↔
    ∃ parent device, parentOf tree parentId = some (.ok parent) ∧ answer.device = some device ∧
      Added tree next parent (decimal childId.toNat) device
  failure : answer.err ≠ .success →
    Unchanged tree next ∧ ∀ device, answer.device = some device → next.dirs device ≠ none

/-- What was created under the pair is removed, unless it has children, and nothing else. -/
structure RemoveSpec (tree : Tree) (parentId : Option (List Char)) (childId : UInt32)
    (answer : Answer) (next : Tree) : Prop where
  removes : ∀ parent device, parentOf tree parentId = some (.ok parent) →
    tree.born device = some (parent, childId) → tree.dirs device = some [] →
      answer.err = .success
  removed : answer.err = .success →
    ∃ parent device, parentOf tree parentId = some (.ok parent) ∧
      tree.born device = some (parent, childId) ∧ Removed tree next parent device
  failure : answer.err ≠ .success → Unchanged tree next

def Spec (tree : Tree) (call : Call) (answer : Answer) (next : Tree) : Prop :=
  NodupNames next ∧
    match call with
    | .create parentId childId _ _ => CreateSpec tree parentId childId answer next
    | .remove parentId childId => RemoveSpec tree parentId childId answer next

/-- A creation that comes to `createChild` meets no failure there, has an id of 16 bits, and
its parent has no child of that id. -/
def Good (tree : Tree) : Call → Prop
  | .create parentId childId device outcome =>
    ∀ parent, device = true → parentOf tree parentId = some (.ok parent) →
      outcome.newDev = true → outcome.ret = .success →
        outcome.tag = true ∧ outcome.node = true ∧ outcome.parentTag = true ∧
          childId.toNat < 2 ^ 16 ∧
            ∀ dirs, tree.dirs parent = some dirs → decimal childId.toNat ∉ dirs.map Tag.name
  | .remove _ _ => True

section

def Sourced (tree : Tree) (parent : Nat) (tag : Tag) : Prop :=
  (∃ childId : UInt32, tag.name = printD childId ∧ tree.born tag.inode = some (parent, childId)) ∨
    (∀ num, tag.name ≠ printD num) ∧ tree.born tag.inode = none

structure Inv (tree : Tree) : Prop where
  root : tree.dirs rootDevice ≠ none
  fresh : ∀ device, tree.nextDevice ≤ device → tree.dirs device = none
  nodup : NodupNames tree
  live : ∀ parent dirs, tree.dirs parent = some dirs → ∀ tag ∈ dirs, tree.dirs tag.inode ≠ none
  sourced : ∀ parent dirs, tree.dirs parent = some dirs → ∀ tag ∈ dirs, Sourced tree parent tag
  /-- A created device that is live has its tag. -/
  tagged : ∀ device parent childId, tree.born device = some (parent, childId) →
    tree.dirs device ≠ none → ∃ dirs, tree.dirs parent = some dirs ∧
      ⟨printD childId, device⟩ ∈ dirs
  born_lt : ∀ device parent childId, tree.born device = some (parent, childId) →
    parent < device ∧ device < tree.nextDevice ∧ childId.toNat < 2 ^ 16

theorem ne_printD_of_mem {name : List Char} (h : 'b' ∈ name) (num : UInt32) :
    name ≠ printD num := by
  rintro rfl
  rcases mem_printD h with heq | hdigit
  · exact absurd heq (by decide)
  · exact absurd hdigit (by decide)

def rootTags : List Tag :=
  [⟨"by-path".toList, 4⟩, ⟨"by-class".toList, 3⟩, ⟨"by-name".toList, 2⟩, ⟨"by-id".toList, 1⟩]

theorem dirs_initialTree {device : Nat} {dirs : List Tag}
    (h : initialTree.dirs device = some dirs) : dirs = rootTags ∨ dirs = [] := by
  rw [initialTree] at h
  dsimp only at h
  split at h
  · exact .inl (some.inj h).symm
  · split at h
    · exact .inr (some.inj h).symm
    · cases h

theorem rootTags_sourced : ∀ tag ∈ rootTags,
    'b' ∈ tag.name ∧ initialTree.dirs tag.inode ≠ none := by
  decide

theorem inv_initialTree : Inv initialTree where
  root := some_ne_none _
  fresh := by
    intro device hdevice
    have hle : 5 ≤ device := hdevice
    rw [initialTree]
    dsimp only
    rw [if_neg (by rw [rootDevice]; omega), if_neg (by omega)]
  nodup := by
    intro device dirs hdirs
    rcases dirs_initialTree hdirs with rfl | rfl
    · decide
    · exact nodup_nil
  live := by
    intro parent dirs hdirs tag htag
    rcases dirs_initialTree hdirs with rfl | rfl
    · exact (rootTags_sourced tag htag).2
    · cases htag
  sourced := by
    intro parent dirs hdirs tag htag
    rcases dirs_initialTree hdirs with rfl | rfl
    · exact .inr ⟨ne_printD_of_mem (rootTags_sourced tag htag).1, rfl⟩
    · cases htag
  tagged := by
    intro device parent childId hborn
    cases hborn
  born_lt := by
    intro device parent childId hborn
    cases hborn

variable {tree : Tree}

@[simp] theorem dirs_setDirs (tree : Tree) (device : Nat) (dirs : Option (List Tag)) :
    (tree.setDirs device dirs).dirs = update tree.dirs device dirs :=
  rfl

theorem Inv.lt_nextDevice (h : Inv tree) {device : Nat} (hlive : tree.dirs device ≠ none) :
    device < tree.nextDevice := by
  refine Classical.byContradiction fun hge => hlive (h.fresh device ?_)
  omega

theorem mem_of_getDirTag {dirs : List Tag} {name : List Char} {tag : Tag}
    (h : getDirTag dirs name = some tag) : tag ∈ dirs ∧ tag.name = name := by
  rw [getDirTag] at h
  split at h
  · cases h
  · exact ⟨mem_of_find?_eq_some h, of_decide_eq_true (find?_some h :)⟩

def Leads (tree : Tree) : Except Kerror Nat → Prop
  | .ok device => tree.dirs device ≠ none
  | .error err => err ≠ .success

theorem leads_error {err : Kerror} (h : err ≠ .success) : Leads tree (.error err) :=
  h

theorem Inv.getPathFrom (h : Inv tree) (fuel currTag : Nat) (path : List Char)
    (hlive : tree.dirs currTag ≠ none) :
    ∃ result, getPathFrom tree fuel currTag path = some result ∧ Leads tree result := by
  induction fuel generalizing currTag path with
  | zero => exact ⟨.error .notFound, rfl, leads_error (by decide)⟩
  | succ fuel ih =>
    obtain ⟨dirs, hdirs⟩ := ne_none_iff_exists'.mp hlive
    have hnext : ∀ name tag, getDirTag dirs name = some tag → tree.dirs tag.inode ≠ none :=
      fun name tag htag => h.live currTag dirs hdirs tag (mem_of_getDirTag htag).1
    rw [DeviceTree.getPathFrom]
    rw [hdirs]
    dsimp only
    split
    · exact ⟨.ok currTag, rfl, hlive⟩
    split
    · split
      · exact ih currTag _ hlive
      · split
        · exact ⟨.error .notFound, rfl, leads_error (by decide)⟩
        · rename_i tag htag
          exact ih tag.inode _ (hnext _ tag htag)
    · split
      · exact ⟨.error .invalidResourceName, rfl, leads_error (by decide)⟩
      · split
        · exact ⟨.error .notFound, rfl, leads_error (by decide)⟩
        · rename_i tag htag
          exact ⟨.ok tag.inode, rfl, hnext _ tag htag⟩

theorem Inv.parentOf (h : Inv tree) (parentId : Option (List Char)) :
    ∃ result, parentOf tree parentId = some result ∧ Leads tree result := by
  cases parentId with
  | none => exact ⟨.error .invalidArg, rfl, leads_error (by decide)⟩
  | some path =>
    rw [DeviceTree.parentOf]
    split
    · rw [getPath]
      split
      · exact ⟨.error .notFound, rfl, leads_error (by decide)⟩
      · exact h.getPathFrom _ _ _ h.root
    · exact ⟨.error .invalidArgVal, rfl, leads_error (by decide)⟩

end

section

variable {tree : Tree} {parent : Nat} {dirs : List Tag} {childId : UInt32} {outcome : Outcome}

def childName (childId : UInt32) : List Char :=
  printD childId.toUInt16.toUInt32

theorem childName_eq (childId : UInt32) : childName childId = decimal (childId.toNat % 2 ^ 16) := by
  have hnum : childId.toUInt16.toUInt32.toNat = childId.toNat % 2 ^ 16 := by
    rw [UInt16.toNat_toUInt32, UInt32.toNat_toUInt16]
  have hlt : childId.toNat % 2 ^ 16 < 2 ^ 31 := by omega
  rw [childName, printD_of_lt (by rwa [hnum]), hnum]

theorem childName_of_lt (h : childId.toNat < 2 ^ 16) :
    childName childId = decimal childId.toNat := by
  rw [childName_eq, mod_eq_of_lt h]

theorem childName_eq_printD (h : childId.toNat < 2 ^ 16) : childName childId = printD childId := by
  rw [childName_of_lt h, printD_of_lt (by omega)]

def addedTree (tree : Tree) (parent : Nat) (dirs : List Tag) (childId : UInt32) : Tree where
  dirs := update (update tree.dirs tree.nextDevice (some [])) parent
    (some (⟨childName childId, tree.nextDevice⟩ :: dirs))
  nextDevice := tree.nextDevice + 1
  born := update tree.born tree.nextDevice (some (parent, childId))

def Outcome.createsChild (outcome : Outcome) : Prop :=
  outcome.tag = true ∧ outcome.node = true ∧ outcome.parentTag = true

theorem createDeviceUnder_of_createsChild (hparent : tree.dirs parent = some dirs)
    (hne : parent ≠ tree.nextDevice) (hnewDev : outcome.newDev = true)
    (hret : outcome.ret = .success) (hchild : outcome.createsChild) :
    createDeviceUnder tree parent childId outcome =
      some (⟨.success, some tree.nextDevice⟩, addedTree tree parent dirs childId) := by
  obtain ⟨htag, hnode, hparentTag⟩ := hchild
  have hdirs : update tree.dirs tree.nextDevice (some []) parent = some dirs := by
    rw [update_of_ne hne, hparent]
  simp only [createDeviceUnder, hnewDev, hret, createChild, dirs_setDirs, hdirs, htag, hnode,
    hparentTag, printD_ne_nil, Bool.true_eq_false, if_false, ne_eq, not_true_eq_false]
  rfl

theorem createDeviceUnder_of_not_createsChild (childId : UInt32)
    (hparent : tree.dirs parent = some dirs)
    (hne : parent ≠ tree.nextDevice) (hnewDev : outcome.newDev = true)
    (hret : outcome.ret = .success) (hchild : ¬outcome.createsChild) :
    ∃ next, createDeviceUnder tree parent childId outcome =
        some (⟨.success, some tree.nextDevice⟩, next) ∧ next.dirs tree.nextDevice = none := by
  have hdirs : update tree.dirs tree.nextDevice (some []) parent = some dirs := by
    rw [update_of_ne hne, hparent]
  obtain ⟨err, tree', hcreate, herr⟩ : ∃ err tree',
      createChild { tree.setDirs tree.nextDevice (some []) with nextDevice := tree.nextDevice + 1 }
        parent (printD childId.toUInt16.toUInt32) tree.nextDevice outcome = some (err, tree') ∧
      err ≠ .success := by
    rw [createChild]
    dsimp only [dirs_setDirs]
    rw [hdirs]
    dsimp only
    rw [if_neg (printD_ne_nil _)]
    split
    · exact ⟨_, _, rfl, by decide⟩
    split
    · exact ⟨_, _, rfl, by decide⟩
    split
    · exact ⟨_, _, rfl, by decide⟩
    · rename_i htag hnode hparentTag
      exact absurd ⟨Bool.of_not_eq_false htag, Bool.of_not_eq_false hnode,
        Bool.of_not_eq_false hparentTag⟩ hchild
  refine ⟨tree'.setDirs tree.nextDevice none, ?_, update_self ..⟩
  simp only [createDeviceUnder, hnewDev, hret, hcreate, Bool.true_eq_false, if_false, ne_eq,
    not_true_eq_false, herr, not_false_eq_true, if_true]

theorem added_addedTree (h : Inv tree) (hparent : tree.dirs parent = some dirs) (childId : UInt32) :
    Added tree (addedTree tree parent dirs childId) parent (childName childId) tree.nextDevice where
  fresh := h.fresh _ (le_refl _)
  live := by
    have hne := (h.lt_nextDevice (ne_none_iff_exists'.mpr ⟨dirs, hparent⟩)).ne'
    rw [addedTree]
    dsimp only
    rw [update_of_ne hne, update_self]
  child := ⟨dirs, hparent, update_self ..⟩
  frame := by
    intro other hdevice hother
    rw [addedTree]
    dsimp only
    rw [update_of_ne hother, update_of_ne hdevice]

variable {device : Nat} {parentId : Option (List Char)}

theorem dirs_addedTree {dirs' : List Tag}
    (hdirs' : (addedTree tree parent dirs childId).dirs device = some dirs') :
    device = parent ∧ dirs' = ⟨childName childId, tree.nextDevice⟩ :: dirs ∨
      device = tree.nextDevice ∧ dirs' = [] ∨ tree.dirs device = some dirs' := by
  rw [addedTree] at hdirs'
  dsimp only at hdirs'
  rcases eq_or_ne device parent with rfl | hparent
  · rw [update_self] at hdirs'
    exact .inl ⟨rfl, (some.inj hdirs').symm⟩
  rw [update_of_ne hparent] at hdirs'
  rcases eq_or_ne device tree.nextDevice with rfl | hdevice
  · rw [update_self] at hdirs'
    exact .inr (.inl ⟨rfl, (some.inj hdirs').symm⟩)
  · rw [update_of_ne hdevice] at hdirs'
    exact .inr (.inr hdirs')

theorem live_addedTree (hlive : tree.dirs device ≠ none) :
    (addedTree tree parent dirs childId).dirs device ≠ none := by
  rw [addedTree]
  dsimp only
  rw [update_apply, update_apply]
  split
  · exact some_ne_none _
  · split
    · exact some_ne_none _
    · exact hlive

theorem Inv.sourced_addedTree (h : Inv tree) {tag : Tag} (hlive : tree.dirs tag.inode ≠ none)
    (hsourced : Sourced tree device tag) :
    Sourced (addedTree tree parent dirs childId) device tag := by
  have hne : tag.inode ≠ tree.nextDevice := (h.lt_nextDevice hlive).ne
  rw [Sourced, addedTree]
  dsimp only
  rw [update_of_ne hne]
  exact hsourced

theorem nodupNames_addedTree_iff (h : Inv tree) (hparent : tree.dirs parent = some dirs) :
    NodupNames (addedTree tree parent dirs childId) ↔ childName childId ∉ dirs.map Tag.name := by
  constructor
  · intro hnodup
    have hnames := hnodup parent _ (update_self ..)
    exact (nodup_cons.mp hnames).1
  · intro hnew device dirs' hdirs'
    rcases dirs_addedTree hdirs' with ⟨rfl, rfl⟩ | ⟨rfl, rfl⟩ | hbefore
    · exact nodup_cons.mpr ⟨hnew, h.nodup _ _ hparent⟩
    · exact nodup_nil
    · exact h.nodup _ _ hbefore

theorem born_addedTree {parent' : Nat} {childId' : UInt32}
    (hborn : (addedTree tree parent dirs childId).born device = some (parent', childId')) :
    device = tree.nextDevice ∧ parent' = parent ∧ childId' = childId ∨
      device ≠ tree.nextDevice ∧ tree.born device = some (parent', childId') := by
  rw [addedTree] at hborn
  dsimp only at hborn
  rcases eq_or_ne device tree.nextDevice with rfl | hne
  · rw [update_self] at hborn
    cases hborn
    exact .inl ⟨rfl, rfl, rfl⟩
  · rw [update_of_ne hne] at hborn
    exact .inr ⟨hne, hborn⟩

theorem Inv.added (h : Inv tree) (hparent : tree.dirs parent = some dirs)
    (hid : childId.toNat < 2 ^ 16) (hnew : childName childId ∉ dirs.map Tag.name) :
    Inv (addedTree tree parent dirs childId) := by
  have hparentLive : tree.dirs parent ≠ none := ne_none_iff_exists'.mpr ⟨dirs, hparent⟩
  have hlt := h.lt_nextDevice hparentLive
  have hadded := added_addedTree h hparent childId
  refine ⟨live_addedTree h.root, ?_, (nodupNames_addedTree_iff h hparent).mpr hnew, ?_, ?_, ?_, ?_⟩
  · intro device hdevice
    have hge : tree.nextDevice + 1 ≤ device := hdevice
    rw [hadded.frame device (by omega) (by omega)]
    exact h.fresh device (by omega)
  · intro device dirs' hdirs' tag htag
    rcases dirs_addedTree hdirs' with ⟨rfl, rfl⟩ | ⟨rfl, rfl⟩ | hbefore
    · rcases mem_cons.mp htag with rfl | hold
      · rw [hadded.live]
        exact some_ne_none _
      · exact live_addedTree (h.live _ _ hparent tag hold)
    · cases htag
    · exact live_addedTree (h.live _ _ hbefore tag htag)
  · intro device dirs' hdirs' tag htag
    rcases dirs_addedTree hdirs' with ⟨rfl, rfl⟩ | ⟨rfl, rfl⟩ | hbefore
    · rcases mem_cons.mp htag with rfl | hold
      · exact .inl ⟨childId, childName_eq_printD hid, update_self ..⟩
      · exact h.sourced_addedTree (h.live _ _ hparent tag hold) (h.sourced _ _ hparent tag hold)
    · cases htag
    · exact h.sourced_addedTree (h.live _ _ hbefore tag htag) (h.sourced _ _ hbefore tag htag)
  · intro device parent' childId' hborn hlive
    rcases born_addedTree hborn with ⟨rfl, rfl, rfl⟩ | ⟨hne, hbefore⟩
    · rw [← childName_eq_printD hid]
      exact ⟨_, update_self .., mem_cons_self⟩
    have hdevice : tree.dirs device ≠ none := by
      rcases eq_or_ne device parent with rfl | hother
      · exact hparentLive
      · rwa [hadded.frame device hne hother] at hlive
    obtain ⟨dirs', hdirs', htag⟩ := h.tagged device parent' childId' hbefore hdevice
    rcases eq_or_ne parent' parent with rfl | hother
    · rw [hparent, some.injEq] at hdirs'
      subst hdirs'
      exact ⟨_, update_self .., mem_cons_of_mem _ htag⟩
    · have hlt' := h.lt_nextDevice (ne_none_iff_exists'.mpr ⟨dirs', hdirs'⟩)
      exact ⟨dirs', by rw [hadded.frame parent' hlt'.ne hother, hdirs'], htag⟩
  · intro device parent' childId' hborn
    rcases born_addedTree hborn with ⟨rfl, rfl, rfl⟩ | ⟨-, hbefore⟩
    · exact ⟨hlt, lt_succ_self _, hid⟩
    · obtain ⟨hparent', hdevice, hid'⟩ := h.born_lt device parent' childId' hbefore
      exact ⟨hparent', lt_succ_of_lt hdevice, hid'⟩

/-- A device that is never put into the tree: `initialize` failed. -/
def leakedTree (tree : Tree) : Tree :=
  { tree.setDirs tree.nextDevice (some []) with nextDevice := tree.nextDevice + 1 }

theorem dirs_leakedTree (hne : device ≠ tree.nextDevice) :
    (leakedTree tree).dirs device = tree.dirs device :=
  update_of_ne hne ..

theorem Inv.unchanged_leakedTree (h : Inv tree) : Unchanged tree (leakedTree tree) :=
  fun _ hlive => dirs_leakedTree (h.lt_nextDevice hlive).ne

theorem Inv.leaked (h : Inv tree) : Inv (leakedTree tree) := by
  have hnew : (leakedTree tree).dirs tree.nextDevice = some [] := update_self ..
  have hlive : ∀ device, tree.dirs device ≠ none → (leakedTree tree).dirs device ≠ none := by
    intro device hdevice
    rwa [h.unchanged_leakedTree device hdevice]
  have hcases : ∀ device dirs, (leakedTree tree).dirs device = some dirs →
      dirs = [] ∨ tree.dirs device = some dirs := by
    intro device dirs hdirs
    rcases eq_or_ne device tree.nextDevice with rfl | hne
    · rw [hnew] at hdirs
      exact .inl (some.inj hdirs).symm
    · rw [dirs_leakedTree hne] at hdirs
      exact .inr hdirs
  refine ⟨hlive _ h.root, ?_, ?_, ?_, ?_, ?_, ?_⟩
  · intro device hdevice
    have hge : tree.nextDevice + 1 ≤ device := hdevice
    rw [dirs_leakedTree (by omega)]
    exact h.fresh device (by omega)
  · intro device dirs hdirs
    rcases hcases device dirs hdirs with rfl | hbefore
    · exact nodup_nil
    · exact h.nodup device dirs hbefore
  · intro device dirs hdirs tag htag
    rcases hcases device dirs hdirs with rfl | hbefore
    · cases htag
    · exact hlive _ (h.live device dirs hbefore tag htag)
  · intro device dirs hdirs tag htag
    rcases hcases device dirs hdirs with rfl | hbefore
    · cases htag
    · exact h.sourced device dirs hbefore tag htag
  · intro device parent childId hborn hdevice
    have hne : device ≠ tree.nextDevice := (h.born_lt _ _ _ hborn).2.1.ne
    rw [dirs_leakedTree hne] at hdevice
    obtain ⟨dirs, hdirs, htag⟩ := h.tagged device parent childId hborn hdevice
    refine ⟨dirs, ?_, htag⟩
    rw [h.unchanged_leakedTree parent (by rw [hdirs]; exact some_ne_none _), hdirs]
  · intro device parent childId hborn
    obtain ⟨hparent, hdevice, hid⟩ := h.born_lt device parent childId hborn
    exact ⟨hparent, lt_succ_of_lt hdevice, hid⟩

theorem createSpec_of_error {next : Tree} {err : Kerror} (herr : err ≠ .success)
    (hunchanged : Unchanged tree next) : CreateSpec tree parentId childId ⟨err, none⟩ next where
  success_iff := by
    constructor
    · intro hsuccess
      exact absurd hsuccess herr
    · rintro ⟨parent, device, -, hdevice, -⟩
      cases hdevice
  failure := by
    intro _
    refine ⟨hunchanged, ?_⟩
    intro device hdevice
    cases hdevice

theorem createSpec_addedTree_iff (h : Inv tree)
    (hparentOf : parentOf tree parentId = some (.ok parent))
    (hparent : tree.dirs parent = some dirs) :
    CreateSpec tree parentId childId ⟨.success, some tree.nextDevice⟩
        (addedTree tree parent dirs childId) ↔ childId.toNat < 2 ^ 16 := by
  constructor
  · intro hspec
    obtain ⟨parent', device, hparentOf', -, hadded⟩ := hspec.success_iff.mp rfl
    rw [hparentOf] at hparentOf'
    cases hparentOf'
    obtain ⟨dirs', hdirs', hchild⟩ := hadded.child
    have hparentDirs : (addedTree tree parent dirs childId).dirs parent =
        some (⟨childName childId, tree.nextDevice⟩ :: dirs) := update_self ..
    rw [hparentDirs, some.injEq, cons.injEq] at hchild
    have hname : childName childId = decimal childId.toNat := congrArg Tag.name hchild.1
    rw [childName_eq] at hname
    have hmod := decimal_injective hname
    omega
  · intro hid
    have hadded := added_addedTree h hparent childId
    rw [childName_of_lt hid] at hadded
    constructor
    · exact ⟨fun _ => ⟨parent, tree.nextDevice, hparentOf, rfl, hadded⟩, fun _ => rfl⟩
    · intro hfailure
      exact absurd rfl hfailure

theorem good_create_iff (childId : UInt32) (hparentOf : parentOf tree parentId = some (.ok parent))
    (hparent : tree.dirs parent = some dirs) (hnewDev : outcome.newDev = true)
    (hret : outcome.ret = .success) (hchild : outcome.createsChild) :
    Good tree (.create parentId childId true outcome) ↔
      childName childId ∉ dirs.map Tag.name ∧ childId.toNat < 2 ^ 16 := by
  constructor
  · intro hgood
    obtain ⟨-, -, -, hid, hnew⟩ := hgood parent rfl hparentOf hnewDev hret
    rw [childName_of_lt hid]
    exact ⟨hnew dirs hparent, hid⟩
  · rintro ⟨hnew, hid⟩ parent' - hparentOf' - -
    rw [hparentOf] at hparentOf'
    cases hparentOf'
    refine ⟨hchild.1, hchild.2.1, hchild.2.2, hid, ?_⟩
    intro dirs' hdirs'
    rw [hparent] at hdirs'
    cases hdirs'
    rwa [childName_of_lt hid] at hnew

theorem Inv.createDeviceUnder (h : Inv tree)
    (hparentOf : DeviceTree.parentOf tree parentId = some (.ok parent))
    (hparent : tree.dirs parent = some dirs) :
    ∃ answer next, DeviceTree.createDeviceUnder tree parent childId outcome = some (answer, next) ∧
      (NodupNames next ∧ CreateSpec tree parentId childId answer next ↔
        Good tree (.create parentId childId true outcome)) ∧
      (Good tree (.create parentId childId true outcome) → Inv next) := by
  have hne : parent ≠ tree.nextDevice :=
    (h.lt_nextDevice (ne_none_iff_exists'.mpr ⟨dirs, hparent⟩)).ne
  cases hnewDev : outcome.newDev with
  | false =>
    have hgood : Good tree (.create parentId childId true outcome) := by
      intro _ _ _ hnewDev'
      rw [hnewDev] at hnewDev'
      cases hnewDev'
    refine ⟨⟨.memoryNomem, none⟩, tree, ?_, ?_, fun _ => h⟩
    · simp [DeviceTree.createDeviceUnder, hnewDev]
    · exact ⟨fun _ => hgood,
        fun _ => ⟨h.nodup, createSpec_of_error (by decide) fun _ _ => rfl⟩⟩
  | true =>
    rcases eq_or_ne outcome.ret .success with hret | hret
    · rcases em outcome.createsChild with hchild | hchild
      · have hgood := good_create_iff childId hparentOf hparent hnewDev hret hchild
        refine ⟨_, _, createDeviceUnder_of_createsChild hparent hne hnewDev hret hchild, ?_, ?_⟩
        · rw [hgood, nodupNames_addedTree_iff h hparent,
            createSpec_addedTree_iff h hparentOf hparent]
        · rw [hgood]
          rintro ⟨hnew, hid⟩
          exact h.added hparent hid hnew
      · have hbad : ¬Good tree (.create parentId childId true outcome) := by
          intro hgood
          obtain ⟨htag, hnode, hparentTag, -⟩ := hgood parent rfl hparentOf hnewDev hret
          exact hchild ⟨htag, hnode, hparentTag⟩
        obtain ⟨next, hcreate, hdeleted⟩ :=
          createDeviceUnder_of_not_createsChild childId hparent hne hnewDev hret hchild
        refine ⟨_, next, hcreate, ⟨?_, fun hgood => absurd hgood hbad⟩,
          fun hgood => absurd hgood hbad⟩
        rintro ⟨-, hspec⟩
        obtain ⟨_, device, -, hdevice, hadded⟩ := hspec.success_iff.mp rfl
        cases hdevice
        have hlive := hadded.live
        rw [hdeleted] at hlive
        cases hlive
    · have hgood : Good tree (.create parentId childId true outcome) :=
        fun _ _ _ _ hsuccess => absurd hsuccess hret
      refine ⟨⟨outcome.ret, none⟩, leakedTree tree, ?_, ?_, fun _ => h.leaked⟩
      · simp only [DeviceTree.createDeviceUnder, hnewDev, Bool.true_eq_false, if_false, ne_eq,
          hret, not_false_eq_true, if_true]
        rfl
      · exact ⟨fun _ => hgood, fun _ => ⟨h.leaked.nodup,
          createSpec_of_error hret h.unchanged_leakedTree⟩⟩

end

section

variable {tree : Tree} {parent : Nat} {dirs : List Tag} {childId : UInt32}

theorem removeDirTag_eq_filter (hnodup : (dirs.map Tag.name).Nodup) (name : List Char) :
    removeDirTag dirs name = dirs.filter fun tag => tag.name ≠ name := by
  induction dirs with
  | nil => rfl
  | cons tag dirs ih =>
    rw [map_cons, nodup_cons] at hnodup
    rcases eq_or_ne tag.name name with rfl | hne
    · rw [removeDirTag, eraseP_cons_of_pos (by exact decide_eq_true rfl),
        filter_cons_of_neg (by simp)]
      refine (filter_eq_self.mpr fun other hother => ?_).symm
      refine decide_eq_true fun heq => hnodup.1 ?_
      exact mem_map.mpr ⟨other, hother, heq⟩
    · rw [removeDirTag, eraseP_cons_of_neg (by simp [hne]),
        filter_cons_of_pos (by exact decide_eq_true hne)]
      exact congrArg (tag :: ·) (ih hnodup.2)

variable {tag : Tag} {device : Nat}

theorem Inv.born_of_name (h : Inv tree) (hparent : tree.dirs parent = some dirs)
    (htag : tag ∈ dirs) (hname : tag.name = printD childId) :
    tree.born tag.inode = some (parent, childId) := by
  rcases h.sourced parent dirs hparent tag htag with ⟨childId', hname', hborn⟩ | ⟨hother, -⟩
  · rw [hname'] at hname
    rwa [printD_injective hname] at hborn
  · exact absurd hname (hother childId)

theorem Inv.name_of_born (h : Inv tree) (hparent : tree.dirs parent = some dirs)
    (htag : tag ∈ dirs) {parent' : Nat} (hborn : tree.born tag.inode = some (parent', childId)) :
    parent' = parent ∧ tag.name = printD childId := by
  rcases h.sourced parent dirs hparent tag htag with ⟨childId', hname, hborn'⟩ | ⟨-, hnone⟩
  · rw [hborn] at hborn'
    cases hborn'
    exact ⟨rfl, hname⟩
  · rw [hborn] at hnone
    cases hnone

theorem Inv.eq_of_name_eq (h : Inv tree) (hparent : tree.dirs parent = some dirs) {other : Tag}
    (htag : tag ∈ dirs) (hother : other ∈ dirs) (hname : tag.name = other.name) : tag = other :=
  inj_on_of_nodup_map (h.nodup parent dirs hparent) htag hother hname

def removedTree (tree : Tree) (parent : Nat) (dirs : List Tag) (device : Nat) : Tree :=
  (tree.setDirs device none).setDirs parent (some (dirs.filter fun tag => tag.inode ≠ device))

theorem removed_removedTree (hparent : tree.dirs parent = some dirs) (hne : device ≠ parent) :
    Removed tree (removedTree tree parent dirs device) parent device where
  deleted := by
    rw [removedTree, dirs_setDirs, update_of_ne hne, dirs_setDirs, update_self]
  child := ⟨dirs, hparent, update_self ..⟩
  frame := by
    intro other hdevice hother
    rw [removedTree, dirs_setDirs, update_of_ne hother, dirs_setDirs, update_of_ne hdevice]

theorem dirs_removedTree {other : Nat} {dirs' : List Tag}
    (hdirs' : (removedTree tree parent dirs device).dirs other = some dirs') :
    other = parent ∧ dirs' = dirs.filter (fun tag => tag.inode ≠ device) ∨
      other ≠ parent ∧ other ≠ device ∧ tree.dirs other = some dirs' := by
  rw [removedTree, dirs_setDirs] at hdirs'
  rcases eq_or_ne other parent with rfl | hparent
  · rw [update_self] at hdirs'
    exact .inl ⟨rfl, (some.inj hdirs').symm⟩
  rw [update_of_ne hparent, dirs_setDirs] at hdirs'
  rcases eq_or_ne other device with rfl | hdevice
  · rw [update_self] at hdirs'
    cases hdirs'
  · rw [update_of_ne hdevice] at hdirs'
    exact .inr ⟨hparent, hdevice, hdirs'⟩

theorem live_removedTree {other : Nat} (hne : other ≠ device) (hlive : tree.dirs other ≠ none) :
    (removedTree tree parent dirs device).dirs other ≠ none := by
  rw [removedTree, dirs_setDirs, update_apply]
  split
  · exact some_ne_none _
  · rwa [dirs_setDirs, update_of_ne hne]

theorem Inv.removed (h : Inv tree) (hparent : tree.dirs parent = some dirs)
    (hborn : tree.born device = some (parent, childId)) (hempty : tree.dirs device = some []) :
    Inv (removedTree tree parent dirs device) := by
  obtain ⟨hlt, -, -⟩ := h.born_lt _ _ _ hborn
  have hremoved := removed_removedTree hparent hlt.ne'
  refine ⟨live_removedTree (by rw [rootDevice]; omega) h.root, ?_, ?_, ?_, ?_, ?_, h.born_lt⟩
  · intro other hother
    rcases eq_or_ne other device with rfl | hdevice
    · exact hremoved.deleted
    · have hparentLt := h.lt_nextDevice (ne_none_iff_exists'.mpr ⟨dirs, hparent⟩)
      have hge : tree.nextDevice ≤ other := hother
      rw [hremoved.frame other hdevice (by omega)]
      exact h.fresh other hge
  · intro other dirs' hdirs'
    rcases dirs_removedTree hdirs' with ⟨rfl, rfl⟩ | ⟨-, -, hbefore⟩
    · exact (h.nodup _ _ hparent).sublist (List.Sublist.map _ filter_sublist)
    · exact h.nodup _ _ hbefore
  · intro other dirs' hdirs' tag htag
    rcases dirs_removedTree hdirs' with ⟨rfl, rfl⟩ | ⟨hother, -, hbefore⟩
    · obtain ⟨hold, hinode⟩ := mem_filter.mp htag
      exact live_removedTree (of_decide_eq_true hinode) (h.live _ _ hparent tag hold)
    · refine live_removedTree ?_ (h.live _ _ hbefore tag htag)
      rintro rfl
      exact hother (h.name_of_born hbefore htag hborn).1.symm
  · intro other dirs' hdirs' tag htag
    rcases dirs_removedTree hdirs' with ⟨rfl, rfl⟩ | ⟨-, -, hbefore⟩
    · exact h.sourced _ _ hparent tag (mem_filter.mp htag).1
    · exact h.sourced _ _ hbefore tag htag
  · intro other parent' childId' hborn' hlive
    have hne : other ≠ device := by
      rintro rfl
      exact hlive hremoved.deleted
    have hbefore : tree.dirs other ≠ none := by
      rcases eq_or_ne other parent with rfl | hother
      · rw [hparent]
        exact some_ne_none _
      · rwa [hremoved.frame other hne hother] at hlive
    obtain ⟨dirs', hdirs', htag⟩ := h.tagged other parent' childId' hborn' hbefore
    rcases eq_or_ne parent' parent with rfl | hother
    · rw [hparent, some.injEq] at hdirs'
      subst hdirs'
      exact ⟨_, update_self .., mem_filter.mpr ⟨htag, decide_eq_true hne⟩⟩
    have hdevice : parent' ≠ device := by
      rintro rfl
      rw [hempty, some.injEq] at hdirs'
      rw [← hdirs'] at htag
      cases htag
    exact ⟨dirs', by rw [hremoved.frame parent' hdevice hother, hdirs'], htag⟩

theorem Inv.removeDeviceUnder (h : Inv tree) {parentId : Option (List Char)}
    (hparentOf : DeviceTree.parentOf tree parentId = some (.ok parent))
    (hparent : tree.dirs parent = some dirs) :
    ∃ answer next, DeviceTree.removeDeviceUnder tree parent childId = some (answer, next) ∧
      RemoveSpec tree parentId childId answer next ∧ Inv next := by
  -- A device that was created under the pair and is there has the tag that is looked for.
  have htagged : ∀ parent' device, DeviceTree.parentOf tree parentId = some (.ok parent') →
      tree.born device = some (parent', childId) → tree.dirs device = some [] →
        ⟨printD childId, device⟩ ∈ dirs := by
    intro parent' device hparentOf' hborn hdevice
    rw [hparentOf] at hparentOf'
    cases hparentOf'
    obtain ⟨dirs', hdirs', htag⟩ := h.tagged device parent childId hborn
      (by rw [hdevice]; exact some_ne_none _)
    rw [hparent] at hdirs'
    cases hdirs'
    exact htag
  rw [DeviceTree.removeDeviceUnder, hparent]
  dsimp only
  cases hfind : getDirTag dirs (printD childId) with
  | none =>
    refine ⟨_, _, rfl, ⟨?_, by simp, fun _ _ _ => rfl⟩, h⟩
    intro parent' device hparentOf' hborn hdevice
    have htag := htagged parent' device hparentOf' hborn hdevice
    rw [getDirTag, if_neg (printD_ne_nil _), find?_eq_none] at hfind
    exact absurd (decide_eq_true rfl) (hfind _ htag)
  | some tag =>
    obtain ⟨htag, hname⟩ := mem_of_getDirTag hfind
    have hborn := h.born_of_name hparent htag hname
    obtain ⟨hlt, -, -⟩ := h.born_lt _ _ _ hborn
    obtain ⟨children, hchildren⟩ := ne_none_iff_exists'.mp (h.live _ _ hparent tag htag)
    dsimp only
    rw [hchildren]
    cases children with
    | cons child children =>
      refine ⟨_, _, rfl, ⟨?_, by simp, fun _ _ _ => rfl⟩, h⟩
      intro parent' device hparentOf' hborn' hdevice
      have hsame := h.eq_of_name_eq hparent htag
        (htagged parent' device hparentOf' hborn' hdevice) hname
      rw [hsame, hdevice] at hchildren
      cases hchildren
    | nil =>
      have hfilter : removeDirTag dirs (printD childId) =
          dirs.filter fun other => other.inode ≠ tag.inode := by
        rw [removeDirTag_eq_filter (h.nodup _ _ hparent)]
        refine filter_congr fun other hother => decide_eq_decide.mpr (not_congr ?_)
        constructor
        · intro hname'
          rw [h.eq_of_name_eq hparent hother htag (hname'.trans hname.symm)]
        · intro hinode
          rw [← hinode] at hborn
          exact (h.name_of_born hparent hother hborn).2
      rw [dirs_setDirs, update_of_ne hlt.ne, hparent]
      dsimp only
      rw [hfilter]
      refine ⟨_, _, rfl, ⟨fun _ _ _ _ _ => rfl, fun _ => ?_, fun herr => absurd rfl herr⟩,
        h.removed hparent hborn hchildren⟩
      exact ⟨parent, tag.inode, hparentOf, hborn, removed_removedTree hparent hlt.ne'⟩

end

variable {tree : Tree}

theorem Inv.createDevice (h : Inv tree) (parentId : Option (List Char)) (childId : UInt32)
    (device : Bool) (outcome : Outcome) : ∃ answer next,
      DeviceTree.createDevice tree parentId childId device outcome = some (answer, next) ∧
      (NodupNames next ∧ CreateSpec tree parentId childId answer next ↔
        Good tree (.create parentId childId device outcome)) ∧
      (Good tree (.create parentId childId device outcome) → Inv next) := by
  have herror : ∀ err, err ≠ .success →
      (NodupNames tree ∧ CreateSpec tree parentId childId ⟨err, none⟩ tree) :=
    fun err herr => ⟨h.nodup, createSpec_of_error herr fun _ _ => rfl⟩
  cases device with
  | false =>
    have hgood : Good tree (.create parentId childId false outcome) :=
      fun _ hdevice => Bool.noConfusion hdevice
    exact ⟨_, tree, rfl, ⟨fun _ => hgood, fun _ => herror .invalidArg (by decide)⟩, fun _ => h⟩
  | true =>
    obtain ⟨result, hparentOf, hleads⟩ := h.parentOf parentId
    rw [DeviceTree.createDevice, if_neg (by decide), hparentOf]
    cases result with
    | error err =>
      have hgood : Good tree (.create parentId childId true outcome) := by
        intro parent _ hparentOf'
        rw [hparentOf] at hparentOf'
        cases hparentOf'
      exact ⟨_, tree, rfl, ⟨fun _ => hgood, fun _ => herror err hleads⟩, fun _ => h⟩
    | ok parent =>
      obtain ⟨dirs, hparent⟩ := ne_none_iff_exists'.mp hleads
      exact h.createDeviceUnder hparentOf hparent

theorem Inv.removeDevice (h : Inv tree) (parentId : Option (List Char)) (childId : UInt32) :
    ∃ answer next, DeviceTree.removeDevice tree parentId childId = some (answer, next) ∧
      RemoveSpec tree parentId childId answer next ∧ Inv next := by
  obtain ⟨result, hparentOf, hleads⟩ := h.parentOf parentId
  rw [DeviceTree.removeDevice, hparentOf]
  cases result with
  | error err =>
    refine ⟨_, tree, rfl, ⟨?_, fun hsuccess => absurd hsuccess hleads, fun _ _ _ => rfl⟩, h⟩
    intro parent device hparentOf'
    rw [hparentOf] at hparentOf'
    cases hparentOf'
  | ok parent =>
    obtain ⟨dirs, hparent⟩ := ne_none_iff_exists'.mp hleads
    exact h.removeDeviceUnder hparentOf hparent

theorem Inv.step (h : Inv tree) (call : Call) :
    ∃ answer next, DeviceTree.step tree call = some (answer, next) ∧
      (Spec tree call answer next ↔ Good tree call) ∧ (Good tree call → Inv next) := by
  cases call with
  | create parentId childId device outcome => exact h.createDevice parentId childId device outcome
  | remove parentId childId =>
    obtain ⟨answer, next, hremove, hspec, hinv⟩ := h.removeDevice parentId childId
    exact ⟨answer, next, hremove, ⟨fun _ => trivial, fun _ => ⟨hinv.nodup, hspec⟩⟩,
      fun _ => hinv⟩

/-- Exactly in the runs of good calls, every call returns and does what it should. -/
theorem meets_spec_iff_good (calls : List Call) :
    Meets step Spec initialTree calls ↔ Guarded step Good initialTree calls :=
  meets_iff_guarded (fun _ call h => h.step call) inv_initialTree

def tagFails : Call :=
  .create (some "by-id".toList) 1 true ⟨true, .success, false, true, true⟩

theorem tagFails_not_spec : ¬Meets step Spec initialTree [tagFails] := by
  rintro ⟨answer, next, hstep, ⟨-, hspec⟩, -⟩
  have hanswer : (step initialTree tagFails).map (fun outcome =>
      (outcome.1, outcome.2.dirs 5)) = some (⟨.success, some 5⟩, none) := by
    decide +kernel
  rw [hstep, map_some, some.injEq, Prod.mk.injEq] at hanswer
  obtain ⟨rfl, hdeleted⟩ := hanswer
  obtain ⟨_, device, -, hdevice, hadded⟩ := (CreateSpec.success_iff hspec).mp rfl
  cases hdevice
  have hlive := hadded.live
  rw [hdeleted] at hlive
  cases hlive

end Zambesii.DeviceTree
