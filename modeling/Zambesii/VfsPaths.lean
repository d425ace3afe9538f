import Zambesii.KernelTypes

/-!
The look up of a path in the tree of devices and in the tree of distributaries. A pointer into a
path is what is left of the path from there, without its NUL. To go behind the NUL, to write behind
the end of a segment's buffer or to look up the children of a tag that has none is not defined.
-/

namespace Zambesii.VfsPaths

open KernelTypes List Option

abbrev Text := List Char

/-- `strnchr8`: the index of the character. -/
def strnchr8 (chr : Char) : Text → (n : Nat) → Option Nat
  | _, 0 => none
  | [], _ + 1 => none
  | c :: str, n + 1 => if c = chr then some 0 else (strnchr8 chr str n).map (· + 1)

def strnlen8 (str : Text) (maxLen : Nat) : Nat :=
  min str.length maxLen

def strncmp8 (str1 str2 : Text) (count : Nat) : Bool :=
  decide (str1.take count = str2.take count)

def advance (str : Text) (count : Nat) : Option Text :=
  if count ≤ str.length then some (str.drop count) else none

/-- A segment of `count` characters and its NUL are put into a buffer of `size` characters. -/
def copySegment (size : Nat) (str : Text) (count : Nat) : Option Text :=
  if count < size then some (str.take count) else none

def discardPrefix (vfsPrefix path : Text) : Text :=
  let path := path.dropWhile (· = '/')
  if strncmp8 path vfsPrefix 3 then path.drop 3 else path

/-- `getDirTag` and `getLeafTag`, in the names and tags of a list. -/
def getTag {Tag : Type} (maxNameLength : Nat) (tags : List (Text × Tag)) (name : Text) :
    Option Tag :=
  if name = [] then none
  else (tags.find? fun currItem => strncmp8 currItem.1 name maxNameLength).map Prod.snd

theorem strnchr8_of_notMem {chr : Char} {str : Text} (h : chr ∉ str) (n : Nat) :
    strnchr8 chr str n = none := by
  induction str generalizing n with
  | nil => cases n <;> rfl
  | cons c str ih =>
    cases n with
    | zero => rfl
    | succ n =>
      obtain ⟨hne, hrest⟩ := not_or.mp fun hmem => h (mem_cons.mpr hmem)
      rw [strnchr8, if_neg (Ne.symm hne), ih hrest]
      rfl

theorem strnchr8_append {chr : Char} {segment : Text} (h : chr ∉ segment) (rest : Text) (n : Nat) :
    strnchr8 chr (segment ++ chr :: rest) n =
      if segment.length < n then some segment.length else none := by
  induction segment generalizing n with
  | nil => cases n <;> simp [strnchr8]
  | cons c segment ih =>
    cases n with
    | zero => rfl
    | succ n =>
      obtain ⟨hne, hrest⟩ := not_or.mp fun hmem => h (mem_cons.mpr hmem)
      rw [cons_append, strnchr8, if_neg (Ne.symm hne), ih hrest, length_cons]
      split
      · rw [if_pos (by omega)]
        rfl
      · rw [if_neg (by omega)]
        rfl

theorem le_strnlen8_iff (str : Text) (maxLen : Nat) :
    maxLen ≤ strnlen8 str maxLen ↔ maxLen ≤ str.length := by
  simp [strnlen8]

theorem advance_append (segment : Text) (c : Char) (rest : Text) :
    advance (segment ++ c :: rest) (segment.length + 1) = some rest := by
  rw [advance, if_pos (by simp)]
  simp

theorem copySegment_append {size : Nat} (segment rest : Text) (h : segment.length < size) :
    copySegment size (segment ++ rest) segment.length = some segment := by
  rw [copySegment, if_pos h, take_left]

def pieces (path : Text) : List Text :=
  path.splitOn '/'

theorem pieces_of_notMem {path : Text} (h : '/' ∉ path) : pieces path = [path] :=
  splitOn_eq_singleton h

theorem pieces_append {segment : Text} (h : '/' ∉ segment) (rest : Text) :
    pieces (segment ++ '/' :: rest) = segment :: pieces rest := by
  rw [pieces, splitOn_append_cons_self, splitOn_eq_singleton h]
  rfl

def names (skipped : Text → Prop) [DecidablePred skipped] (path : Text) : List Text :=
  (pieces path).filter (¬skipped ·)

theorem names_append (skipped : Text → Prop) [DecidablePred skipped] {segment : Text}
    (h : '/' ∉ segment) (rest : Text) :
    names skipped (segment ++ '/' :: rest) =
      if skipped segment then names skipped rest else segment :: names skipped rest := by
  rw [names, pieces_append h, filter_cons]
  split <;> simp_all [names]

theorem names_of_notMem (skipped : Text → Prop) [DecidablePred skipped] {path : Text}
    (h : '/' ∉ path) : names skipped path = if skipped path then [] else [path] := by
  rw [names, pieces_of_notMem h, filter_cons]
  split <;> simp_all

theorem notMem_or_append (path : Text) :
    '/' ∉ path ∨ ∃ segment rest, path = segment ++ '/' :: rest ∧ '/' ∉ segment := by
  rcases em ('/' ∈ path) with hmem | hnot
  · exact .inr (eq_append_cons_of_mem hmem)
  · exact .inl hnot

section

/-- The tags of a device tree with the children of their devices. No tag has the root as a child. -/
structure DeviceTree (Tag : Type) where
  root : Tag
  children : Tag → List (Text × Tag)
  root_ne : ∀ tag, ∀ child ∈ children tag, child.2 ≠ root

def fvfsTagNameMaxlen : Nat := 32

variable {Tag : Type}

/-- `Device::getChild` of the tag's device. -/
def getChild (tree : DeviceTree Tag) (tag : Tag) (name : Text) : Option Tag :=
  getTag fvfsTagNameMaxlen (tree.children tag) name

theorem getChild_ne_root {tree : DeviceTree Tag} {tag child : Tag} {name : Text}
    (h : getChild tree tag name = some child) : child ≠ tree.root := by
  rw [getChild, getTag] at h
  split at h
  · cases h
  · obtain ⟨item, hfind, rfl⟩ := map_eq_some_iff.mp h
    exact tree.root_ne tag item (mem_of_find?_eq_some hfind)

variable [DecidableEq Tag]

def fvfsLoop (tree : DeviceTree Tag) : (fuel : Nat) → Text → Tag → Option (Except Kerror Tag)
  | 0, _, _ => none
  | fuel + 1, path, currTag =>
    if path = [] ∧ currTag ≠ tree.root then some (.ok currTag)
    else
      match strnchr8 '/' path fvfsTagNameMaxlen with
      | some 0 => do
          let path ← advance path 1
          fvfsLoop tree fuel path currTag
      | some segmentLen => do
          let tmpBuff ← copySegment (fvfsTagNameMaxlen + 1) path segmentLen
          match getChild tree currTag tmpBuff with
          | none => some (.error .notFound)
          | some child => do
              let path ← advance path (segmentLen + 1)
              fvfsLoop tree fuel path child
      | none =>
        if fvfsTagNameMaxlen ≤ strnlen8 path fvfsTagNameMaxlen then
          some (.error .invalidResourceName)
        else do
          let tmpBuff ← copySegment (fvfsTagNameMaxlen + 1) path path.length
          match getChild tree currTag tmpBuff with
          | none => some (.error .notFound)
          | some child => some (.ok child)

def fvfsGetPath (tree : DeviceTree Tag) (path : Text) : Option (Except Kerror Tag) :=
  let path := discardPrefix "@f/".toList path
  if path = [] then some (.error .notFound)
  else fvfsLoop tree (path.length + 1) path tree.root

def segments (path : Text) : List Text :=
  names (· = []) path

def lookupChild (tree : DeviceTree Tag) (tag : Tag) (segment : Text) : Except Kerror Tag :=
  if fvfsTagNameMaxlen ≤ segment.length then .error .invalidResourceName
  else
    match getChild tree tag segment with
    | none => .error .notFound
    | some child => .ok child

theorem fvfsLoop_eq (tree : DeviceTree Tag) {fuel : Nat} {path : Text} (h : path.length < fuel)
    (tag : Tag) :
    fvfsLoop tree fuel path tag =
      some (if segments path = [] ∧ tag = tree.root then .error .notFound
        else (segments path).foldlM (lookupChild tree) tag) := by
  induction fuel generalizing path tag with
  | zero => omega
  | succ fuel ih =>
    rw [fvfsLoop]
    rcases notMem_or_append path with hslash | ⟨segment, rest, rfl, hslash⟩
    · rcases eq_or_ne path [] with rfl | hne
      · rcases eq_or_ne tag tree.root with rfl | hroot
        · simp [strnchr8_of_notMem, strnlen8, copySegment, fvfsTagNameMaxlen, getChild, getTag,
            segments, names, pieces]
        · simp [hroot, segments, names, pieces]
          rfl
      · simp only [hne, false_and, if_false, strnchr8_of_notMem hslash, le_strnlen8_iff,
          segments, names_of_notMem _ hslash, cons_ne_nil, foldlM_cons, foldlM_nil,
          lookupChild]
        split
        · rfl
        rename_i hlt
        rw [copySegment, if_pos (by omega), take_length]
        cases hchild : getChild tree tag path with
        | none => simp only [hchild, some_bind]; rfl
        | some child => simp only [hchild, some_bind]; rfl
    have hlength : rest.length < fuel := by
      simp at h
      omega
    simp only [append_eq_nil_iff, cons_ne_nil, and_false, false_and, if_false,
      strnchr8_append hslash, segments, names_append _ hslash, le_strnlen8_iff]
    rcases lt_or_ge segment.length fvfsTagNameMaxlen with hlt | hge
    · simp only [hlt, if_true]
      cases hsegment : segment with
      | nil =>
        exact ih hlength tag
      | cons c tail =>
        have hcopy := copySegment_append segment ('/' :: rest) (Nat.lt_succ_of_lt hlt)
        have hadvance := advance_append segment '/' rest
        rw [hsegment, length_cons] at hlt hcopy hadvance
        simp only [length_cons, reduceCtorEq, if_false, false_and, foldlM_cons,
          lookupChild, Nat.not_le.mpr hlt]
        rw [hcopy, some_bind]
        cases hchild : getChild tree tag (c :: tail) with
        | none => rfl
        | some child =>
          simp only [hadvance, some_bind]
          rw [ih hlength child, if_neg fun hroot => getChild_ne_root hchild hroot.2]
          rfl
    · have hne : segment ≠ [] := by
        rintro rfl
        simp [fvfsTagNameMaxlen] at hge
      rw [if_neg (by omega)]
      simp only [length_append, hne, if_false, false_and, reduceCtorEq, foldlM_cons,
        lookupChild, if_pos hge, Nat.le_add_right_of_le hge, if_true]
      rfl

end

section

structure Category (Tag : Type) where
  dirs : List (Text × Tag)
  leaves : List (Text × Tag)

/-- The tags of the tree, with the inodes of those that are categories. The tags in `dirs` are
categories other than the root. -/
structure DistributaryTree (Tag : Type) where
  root : Tag
  category : Tag → Option (Category Tag)
  root_isSome : (category root).isSome
  dirs_isSome : ∀ tag inode, category tag = some inode → ∀ dir ∈ inode.dirs,
    (category dir.2).isSome ∧ dir.2 ≠ root

def dvfsTagNameMaxlen : Nat := 48

variable {Tag : Type}

def getDefaultDtrib (inode : Category Tag) : Option Tag :=
  getTag dvfsTagNameMaxlen inode.leaves "default".toList

theorem dir_isSome {tree : DistributaryTree Tag} {tag dir : Tag} {inode : Category Tag}
    {name : Text} (hinode : tree.category tag = some inode)
    (h : getTag dvfsTagNameMaxlen inode.dirs name = some dir) :
    (tree.category dir).isSome ∧ dir ≠ tree.root := by
  rw [getTag] at h
  split at h
  · cases h
  · obtain ⟨item, hfind, rfl⟩ := map_eq_some_iff.mp h
    exact tree.dirs_isSome tag inode hinode item (mem_of_find?_eq_some hfind)

variable [DecidableEq Tag]

def dvfsLoop (tree : DistributaryTree Tag) : (fuel : Nat) → Text → Tag →
    Option (Except Kerror Tag)
  | 0, _, _ => none
  | fuel + 1, fullName, currTag =>
    if fullName = [] then
      if currTag ≠ tree.root then
        match tree.category currTag with
        | some inode =>
          match getDefaultDtrib inode with
          | none => some (.error .invalidArgVal)
          | some dTag => some (.ok dTag)
        | none => some (.ok currTag)
      else some (.error .notFound)
    else
      let nextSlash := strnchr8 '/' fullName dvfsTagNameMaxlen
      let segmentLen := nextSlash.getD (strnlen8 fullName dvfsTagNameMaxlen)
      if segmentLen = dvfsTagNameMaxlen then some (.error .invalidResourceName)
      else if segmentLen = 0 ∨ segmentLen = 1 ∧ fullName.head? = some '.' then do
        let fullName ← advance fullName (segmentLen + 1)
        dvfsLoop tree fuel fullName currTag
      else do
        let buff ← copySegment dvfsTagNameMaxlen fullName segmentLen
        let inode ← tree.category currTag
        match if nextSlash = none then getTag dvfsTagNameMaxlen inode.leaves buff else none with
        | some dTag => some (.ok dTag)
        | none =>
          match getTag dvfsTagNameMaxlen inode.dirs buff with
          | none => some (.error .notFound)
          | some currTag =>
            if nextSlash = none then do
              let inode ← tree.category currTag
              match getDefaultDtrib inode with
              | none => some (.error .invalidArgVal)
              | some dTag => some (.ok dTag)
            else do
              let fullName ← advance fullName (segmentLen + 1)
              dvfsLoop tree fuel fullName currTag

def dvfsGetPath (tree : DistributaryTree Tag) (fullName : Text) : Option (Except Kerror Tag) :=
  let fullName := discardPrefix "@d/".toList fullName
  dvfsLoop tree (fullName.length + 1) fullName tree.root

def Skipped (piece : Text) : Prop :=
  piece = [] ∨ piece = ['.']

instance (piece : Text) : Decidable (Skipped piece) :=
  inferInstanceAs (Decidable (_ ∨ _))

def lastPiece (path : Text) : Text :=
  (pieces path).getLast?.getD []

def lookupDir (tree : DistributaryTree Tag) (tag : Tag) (name : Text) : Except Kerror Tag :=
  if dvfsTagNameMaxlen ≤ name.length then .error .invalidResourceName
  else
    match (tree.category tag).bind fun inode => getTag dvfsTagNameMaxlen inode.dirs name with
    | none => .error .notFound
    | some dir => .ok dir

def defaultOf (tree : DistributaryTree Tag) (tag : Tag) : Except Kerror Tag :=
  match (tree.category tag).bind getDefaultDtrib with
  | none => .error .invalidArgVal
  | some dTag => .ok dTag

def lookupLast (tree : DistributaryTree Tag) (tag : Tag) (name : Text) : Except Kerror Tag :=
  match if name.length < dvfsTagNameMaxlen then (tree.category tag).bind fun inode =>
      getTag dvfsTagNameMaxlen inode.leaves name else none with
  | some leaf => .ok leaf
  | none => do defaultOf tree (← lookupDir tree tag name)

/-- What the names of a path lead to. `trailing` tells that a skipped piece follows the last. -/
def resolve (tree : DistributaryTree Tag) (trailing : Prop) [Decidable trailing] :
    Tag → List Text → Except Kerror Tag
  | tag, [] => if tag = tree.root then .error .notFound else defaultOf tree tag
  | tag, name :: rest =>
    if rest = [] ∧ ¬trailing then lookupLast tree tag name
    else do resolve tree trailing (← lookupDir tree tag name) rest

/-- The path is resolved by its names and by whether a skipped piece follows the last of them. -/
def Resolves (tree : DistributaryTree Tag) (path : Text) : Prop :=
  dvfsGetPath tree path =
    some (resolve tree (Skipped (lastPiece (discardPrefix "@d/".toList path))) tree.root
      (names Skipped (discardPrefix "@d/".toList path)))

/-- A `.` stands at the end of a path, and all names before it lead to categories. -/
def DotReached (tree : DistributaryTree Tag) (path : Text) (tag : Tag) : Prop :=
  lastPiece path = ['.'] ∧ ((names Skipped path).foldlM (lookupDir tree) tag).isOk

theorem lastPiece_append {segment : Text} (h : '/' ∉ segment) (rest : Text) :
    lastPiece (segment ++ '/' :: rest) = lastPiece rest := by
  rw [lastPiece, pieces_append h, lastPiece]
  cases hrest : pieces rest with
  | nil => exact absurd hrest (splitOn_ne_nil _ _)
  | cons piece rest => simp

theorem lastPiece_of_notMem {path : Text} (h : '/' ∉ path) : lastPiece path = path := by
  rw [lastPiece, pieces_of_notMem h]
  rfl

theorem skipped_lastPiece {path : Text} (h : names Skipped path = []) :
    Skipped (lastPiece path) := by
  rw [lastPiece]
  cases hlast : (pieces path).getLast? with
  | none => exact .inl rfl
  | some piece => simpa using filter_eq_nil_iff.mp h piece (mem_of_getLast? hlast)

theorem skips_iff (segment rest : Text) :
    (segment.length = 0 ∨ segment.length = 1 ∧ (segment ++ rest).head? = some '.') ↔
      Skipped segment := by
  cases segment with
  | nil => simp [Skipped]
  | cons c tail => cases tail <;> simp [Skipped]

theorem dvfsLoop_eq (tree : DistributaryTree Tag) {fuel : Nat} {path : Text}
    (h : path.length < fuel) {tag : Tag} {inode : Category Tag}
    (hinode : tree.category tag = some inode) :
    (DotReached tree path tag → dvfsLoop tree fuel path tag = none) ∧
      (¬DotReached tree path tag → dvfsLoop tree fuel path tag =
        some (resolve tree (Skipped (lastPiece path)) tag (names Skipped path))) := by
  induction fuel generalizing path tag inode with
  | zero => omega
  | succ fuel ih =>
    rw [dvfsLoop]
    rcases notMem_or_append path with hslash | ⟨segment, rest, rfl, hslash⟩
    · rw [DotReached, lastPiece_of_notMem hslash, names_of_notMem _ hslash]
      rcases eq_or_ne path [] with rfl | hne
      · refine ⟨fun hdot => absurd hdot.1 (by simp), fun _ => ?_⟩
        simp only [if_true, Skipped, true_or, resolve, defaultOf, hinode, bind_some]
        rcases eq_or_ne tag tree.root with hroot | hroot
        · simp [hroot]
        · simp only [hroot, ne_eq, not_false_eq_true, if_true, if_false]
          cases getDefaultDtrib inode <;> rfl
      simp only [if_neg hne, strnchr8_of_notMem hslash, getD_none, if_true]
      rcases eq_or_ne path ['.'] with rfl | hdot
      · exact ⟨fun _ => rfl, fun hnot => absurd (And.intro rfl rfl) hnot⟩
      have hskip : ¬Skipped path := not_or.mpr ⟨hne, hdot⟩
      refine ⟨fun hreached => absurd hreached.1 hdot, fun _ => ?_⟩
      rw [if_neg hskip, resolve, if_pos (And.intro rfl hskip), lookupLast]
      rcases lt_or_ge path.length dvfsTagNameMaxlen with hlt | hge
      · have hlen : strnlen8 path dvfsTagNameMaxlen = path.length := min_eq_left hlt.le
        have hskips := skips_iff path []
        have hcopy := copySegment_append path [] hlt
        rw [append_nil] at hskips hcopy
        simp only [hlen, ne_of_lt hlt, if_false, hskips, hskip, hcopy, hinode, hlt, if_true,
          bind_eq_bind, bind_some, lookupDir, Nat.not_le.mpr hlt]
        cases getTag dvfsTagNameMaxlen inode.leaves path with
        | some leaf => rfl
        | none =>
          cases hdir : getTag dvfsTagNameMaxlen inode.dirs path with
          | none => rfl
          | some dir =>
            obtain ⟨inode', hinode'⟩ :=
              isSome_iff_exists.mp (dir_isSome hinode hdir).1
            change _ = some (defaultOf tree dir)
            simp only [hinode', bind_some, defaultOf]
            cases getDefaultDtrib inode' <;> rfl
      · have hlen : strnlen8 path dvfsTagNameMaxlen = dvfsTagNameMaxlen := min_eq_right hge
        simp only [hlen, if_true, Nat.not_lt.mpr hge, if_false, lookupDir, hge]
        rfl
    · have hlength : rest.length < fuel := by
        simp at h
        omega
      rw [DotReached, lastPiece_append hslash, names_append _ hslash]
      simp only [append_eq_nil_iff, cons_ne_nil, and_false, if_false,
        strnchr8_append hslash]
      rcases lt_or_ge segment.length dvfsTagNameMaxlen with hlt | hge
      · have hadvance := advance_append segment '/' rest
        have hcopy := copySegment_append segment ('/' :: rest) hlt
        simp only [hlt, if_true, getD_some, ne_of_lt hlt, if_false, hadvance, hcopy,
          skips_iff, hinode, reduceCtorEq, bind_eq_bind, bind_some]
        rcases em (Skipped segment) with hskip | hskip
        · simp only [hskip, if_true]
          exact ih hlength hinode
        have hmore : ¬(names Skipped rest = [] ∧ ¬Skipped (lastPiece rest)) :=
          fun hnone => hnone.2 (skipped_lastPiece hnone.1)
        simp only [hskip, if_false, foldlM_cons, resolve, hmore, lookupDir, hinode,
          bind_some, Nat.not_le.mpr hlt]
        cases hdir : getTag dvfsTagNameMaxlen inode.dirs segment with
        | none => exact ⟨fun hdot => absurd hdot.2 Bool.false_ne_true, fun _ => rfl⟩
        | some dir =>
          obtain ⟨inode', hinode'⟩ := isSome_iff_exists.mp (dir_isSome hinode hdir).1
          exact ih hlength hinode'
      · have hskip : ¬Skipped segment := by rintro (rfl | rfl) <;> simp [dvfsTagNameMaxlen] at hge
        have hlen : strnlen8 (segment ++ '/' :: rest) dvfsTagNameMaxlen = dvfsTagNameMaxlen :=
          min_eq_right (by simp; omega)
        simp only [Nat.not_lt.mpr hge, if_false, getD_none, hlen, if_true, hskip,
          foldlM_cons, resolve, lookupLast, lookupDir, hge]
        refine ⟨fun hdot => absurd hdot.2 Bool.false_ne_true, fun _ => ?_⟩
        split <;> rfl

/-- Names that lead nowhere and pieces that are skipped are harmless, but a `.` at the end is
followed by the NUL that the loop steps over. -/
theorem resolves_iff_not_dotReached (tree : DistributaryTree Tag) (path : Text) :
    Resolves tree path ↔ ¬DotReached tree (discardPrefix "@d/".toList path) tree.root := by
  obtain ⟨inode, hinode⟩ := isSome_iff_exists.mp tree.root_isSome
  obtain ⟨hdot, hresolved⟩ := dvfsLoop_eq tree (Nat.lt_succ_self _) hinode
  constructor
  · intro h hreached
    rw [Resolves, dvfsGetPath] at h
    rw [hdot hreached] at h
    cases h
  · exact hresolved

def networkTree : DistributaryTree Nat where
  root := 0
  category := fun tag =>
    if tag = 0 then some ⟨[("network".toList, 1)], []⟩
    else if tag = 1 then some ⟨[], [("default".toList, 2)]⟩ else none
  root_isSome := rfl
  dirs_isSome := by
    intro tag inode h dir hdir
    split at h
    · obtain rfl := Option.some.inj h
      simp only [List.mem_singleton] at hdir
      subst hdir
      decide
    split at h
    · obtain rfl := Option.some.inj h
      cases hdir
    · cases h

theorem dotAtEnd_not_resolved : ¬Resolves networkTree "network/.".toList := by
  intro h
  cases h

end

end Zambesii.VfsPaths
