import Zambesii.CountedTable
import Zambesii.KernelTypes
import Zambesii.Runs

/-!
`Device::addEnumerationAttribute` and `Driver::addInstance`: a search under the read lock,
then an insertion under the write lock, with the calls of several threads interleaved.
-/

namespace Zambesii.DeviceTables

open CountedTable KernelTypes List Runs

structure InstanceAttr where
  attrName : String
  attrType : Nat
  attrValue : List UInt8
deriving DecidableEq

structure DriverInstance where
  bankId : Int
  pid : Nat
deriving DecidableEq

/-- What a function that adds an entry does in its critical sections. `Outcome` is what the
insertion meets outside of the table. -/
structure Adder (Entry Key Outcome : Type) where
  key : Entry → Key
  /-- The bits of the counter. -/
  width : Nat
  /-- An entry that is found is written over. -/
  overwrites : Bool
  insertion : Table Entry → Entry → Outcome → Kerror × Table Entry
  /-- The insertion meets no failure. -/
  succeeds : Outcome → Bool

/-- The insertion of `addEnumerationAttribute`, with the results of its two allocations. -/
def insertAttr (table : Table InstanceAttr) (attrib : InstanceAttr) :
    Bool × Bool → Kerror × Table InstanceAttr
  | (attrTmp, newArray) =>
    if attrTmp = false then (.memoryNomem, table)
    else if newArray = false then (.memoryNomem, table)
    else (.success, table.append 8 attrib)

def addEnumerationAttribute : Adder InstanceAttr String (Bool × Bool) where
  key := InstanceAttr.attrName
  width := 8
  overwrites := true
  insertion := insertAttr
  succeeds := fun (attrTmp, newArray) => attrTmp && newArray

/-- The insertion of `addInstance`, with the result of its allocation and of `initialize`. When
the latter fails the longer array stays. -/
def insertInstance (table : Table DriverInstance) (newInstance : DriverInstance) :
    Bool × Kerror → Kerror × Table DriverInstance
  | (instances, ret) =>
    if instances = false then (.memoryNomem, table)
    else if ret ≠ .success then (ret, table.extend newInstance)
    else (.success, table.append 16 newInstance)

def addInstance : Adder DriverInstance Int (Bool × Kerror) where
  key := DriverInstance.bankId
  width := 16
  overwrites := false
  insertion := insertInstance
  succeeds := fun (instances, ret) => instances && ret = .success

inductive Call (Entry : Type)
  | searching (entry : Entry)
  | overwriting (entry : Entry) (found : Nat)
  | inserting (entry : Entry)
  | returned (entry : Entry) (err : Kerror)
deriving DecidableEq

def Call.entry {Entry : Type} : Call Entry → Entry
  | searching entry | overwriting entry _ | inserting entry | returned entry _ => entry

/-- The table, the calls made on it so far, and the keys that insertions have added. -/
structure State (Entry Key : Type) where
  table : Table Entry
  calls : List (Call Entry)
  added : List Key
deriving DecidableEq

/-- A new call (with a null pointer, which is refused at once, or with an entry), or the next
step of the call with the given number. -/
inductive Event (Entry Outcome : Type)
  | call (entry : Option Entry)
  | advance (caller : Nat) (outcome : Outcome)
deriving DecidableEq

section

variable {Entry Key Outcome : Type} [DecidableEq Key] (adder : Adder Entry Key Outcome)

def initialState : State Entry Key := ⟨Table.empty, [], []⟩

def search (table : Table Entry) (entry : Entry) : Call Entry :=
  match table.find adder.key (adder.key entry) with
  | none => .inserting entry
  | some found => if adder.overwrites then .overwriting entry found else .returned entry .success

def insert (state : State Entry Key) (caller : Nat) (entry : Entry) (outcome : Outcome) :
    State Entry Key :=
  let (err, table) := adder.insertion state.table entry outcome
  { table := table
    calls := state.calls.set caller (.returned entry err)
    added := if err = .success then adder.key entry :: state.added else state.added }

/-- One critical section, or the write to an attribute that was found. A write to a deleted
object is a fault. -/
def step (state : State Entry Key) : Event Entry Outcome → Option (Unit × State Entry Key)
  | .call none => some ((), state)
  | .call (some entry) => some ((), { state with calls := state.calls ++ [.searching entry] })
  | .advance caller outcome =>
    match state.calls[caller]? with
    | some (.searching entry) =>
      some ((), { state with
        calls := state.calls.set caller (search adder state.table entry) })
    | some (.overwriting entry found) =>
      match state.table.overwrite found entry with
      | none => none
      | some table => some ((), { state with
          table := table
          calls := state.calls.set caller (.returned entry .success) })
    | some (.inserting entry) => some ((), insert adder state caller entry outcome)
    | some (.returned _ _) | none => some ((), state)

/-- No key is there twice; every call that returned success has its key there; every entry is
the one of some call; and no key that was added is lost. -/
structure Proper (state : State Entry Key) : Prop where
  nodup_keys : (state.table.counted.map fun object => adder.key object.2).Nodup
  served : ∀ entry, .returned entry .success ∈ state.calls →
    state.table.Has adder.key (adder.key entry)
  values : ∀ object ∈ state.table.counted, ∃ call ∈ state.calls, call.entry = object.2
  kept : ∀ key ∈ state.added, state.table.Has adder.key key

/-- The step is not an insertion of a key that came in since its search, nor one that makes the
counter wrap. -/
def Good (state : State Entry Key) : Event Entry Outcome → Prop
  | .call _ => True
  | .advance caller outcome =>
    match state.calls[caller]? with
    | some (.inserting entry) => adder.succeeds outcome = true →
        ¬state.table.Has adder.key (adder.key entry) ∧
          state.table.count + 1 < 2 ^ adder.width
    | _ => True

structure Adder.Lawful (adder : Adder Entry Key Outcome) : Prop where
  insertion_of_succeeds : ∀ table entry outcome, adder.succeeds outcome = true →
    adder.insertion table entry outcome = (.success, table.append adder.width entry)
  insertion_of_fails : ∀ table entry outcome, adder.succeeds outcome = false →
    ∃ err table', adder.insertion table entry outcome = (err, table') ∧ err ≠ .success ∧
      (table' = table ∨ table' = table.extend entry)

def Justified (table : Table Entry) : Call Entry → Prop
  | .overwriting entry found =>
    ∃ old, (found, old) ∈ table.counted ∧ adder.key old = adder.key entry
  | .returned entry .success => table.Has adder.key (adder.key entry)
  | _ => True

structure Inv (state : State Entry Key) : Prop where
  sound : state.table.Sound adder.key adder.width
  justified : ∀ call ∈ state.calls, Justified adder state.table call
  values : ∀ object ∈ state.table.counted, ∃ call ∈ state.calls, call.entry = object.2
  kept : ∀ key ∈ state.added, state.table.Has adder.key key

def Keeps (table table' : Table Entry) : Prop :=
  ∀ object ∈ table.counted, ∃ entry, (object.1, entry) ∈ table'.counted ∧
    adder.key entry = adder.key object.2

variable {adder} {state : State Entry Key}

omit [DecidableEq Key] in
theorem Inv.proper (h : Inv adder state) : Proper adder state where
  nodup_keys := h.sound.nodup_keys
  served := fun _ hreturned => h.justified _ hreturned
  values := h.values
  kept := h.kept

omit [DecidableEq Key] in
theorem inv_initialState : Inv adder initialState where
  sound := Table.sound_empty
  justified := by
    intro call hcall
    cases hcall
  values := by
    intro object hobject
    cases hobject
  kept := by
    intro key hkey
    cases hkey

section

omit [DecidableEq Key]

variable {table table' : Table Entry} {entry : Entry} {key : Key}

theorem Keeps.has (h : Keeps adder table table') (hhas : table.Has adder.key key) :
    table'.Has adder.key key := by
  obtain ⟨object, hobject, rfl⟩ := hhas
  obtain ⟨entry, hentry, hkey⟩ := h object hobject
  exact ⟨(object.1, entry), hentry, hkey⟩

theorem Keeps.justified (h : Keeps adder table table') {call : Call Entry}
    (hcall : Justified adder table call) : Justified adder table' call := by
  cases call with
  | searching entry => trivial
  | inserting entry => trivial
  | overwriting entry found =>
    obtain ⟨old, hold, hkey⟩ := hcall
    obtain ⟨old', hold', hkey'⟩ := h (found, old) hold
    exact ⟨old', hold', hkey'.trans hkey⟩
  | returned entry err =>
    cases err with
    | success => exact h.has hcall
    | _ => trivial

theorem keeps_of_subset (h : ∀ object ∈ table.counted, object ∈ table'.counted) :
    Keeps adder table table' :=
  fun object hobject => ⟨object.2, h object hobject, rfl⟩

end

omit [DecidableEq Key] in
variable {caller : Nat} {entry : Entry} {outcome : Outcome}

theorem Inv.set (h : Inv adder state) {table : Table Entry} {old : Call Entry} (new : Call Entry)
    (hold : state.calls[caller]? = some old) (hentry : new.entry = old.entry)
    (hsound : table.Sound adder.key adder.width) (hkeeps : Keeps adder state.table table)
    (hvalues : ∀ object ∈ table.counted, object ∈ state.table.counted ∨ object.2 = new.entry)
    (hnew : Justified adder table new) {added : List Key}
    (hadded : ∀ key ∈ added, key ∈ state.added ∨ table.Has adder.key key) :
    Inv adder ⟨table, state.calls.set caller new, added⟩ where
  sound := hsound
  justified := by
    intro call hcall
    rcases mem_or_eq_of_mem_set hcall with hother | rfl
    · exact hkeeps.justified (h.justified call hother)
    · exact hnew
  values := by
    have hlt : caller < state.calls.length := (List.getElem?_eq_some_iff.mp hold).1
    have hmem : new ∈ state.calls.set caller new := mem_set hlt new
    intro object hobject
    rcases hvalues object hobject with hbefore | hvalue
    · obtain ⟨call, hcall, heq⟩ := h.values object hbefore
      obtain ⟨i, hi⟩ := mem_iff_getElem?.mp hcall
      rcases eq_or_ne i caller with rfl | hne
      · rw [hold, Option.some.injEq] at hi
        exact ⟨new, hmem, by rw [hentry, hi, heq]⟩
      · refine ⟨call, mem_iff_getElem?.mpr ⟨i, ?_⟩, heq⟩
        rw [getElem?_set_ne hne.symm, hi]
    · exact ⟨new, hmem, hvalue.symm⟩
  kept := by
    intro key hkey
    rcases hadded key hkey with hbefore | hhas
    · exact hkeeps.has (h.kept key hbefore)
    · exact hhas

theorem justified_search {table : Table Entry} (entry : Entry) :
    Justified adder table (search adder table entry) := by
  rw [search]
  split
  · trivial
  rename_i found hfind
  obtain ⟨old, hold, hkey⟩ := Table.find_eq_some hfind
  split
  · exact ⟨old, hold, hkey⟩
  · exact ⟨(found, old), hold, hkey⟩

theorem entry_search (table : Table Entry) (entry : Entry) :
    (search adder table entry).entry = entry := by
  rw [search]
  split
  · rfl
  · split <;> rfl

variable (h : Inv adder state)

include h

variable (hlawful : adder.Lawful)

include hlawful

theorem Inv.insert_of_fails (hcaller : state.calls[caller]? = some (.inserting entry))
    (hfails : adder.succeeds outcome = false) :
    Inv adder (insert adder state caller entry outcome) := by
  obtain ⟨err, table', heq, herr, htable⟩ :=
    hlawful.insertion_of_fails state.table entry outcome hfails
  have hcounted : table'.counted = state.table.counted := by
    rcases htable with rfl | rfl
    · rfl
    · exact h.sound.counted_extend
  have hsound : table'.Sound adder.key adder.width := by
    rcases htable with rfl | rfl
    · exact h.sound
    · exact h.sound.extend entry
  rw [insert, heq]
  refine h.set (.returned entry err) hcaller rfl hsound (keeps_of_subset ?_) ?_ ?_ ?_
  · intro object hobject
    rwa [hcounted]
  · intro object hobject
    rw [hcounted] at hobject
    exact .inl hobject
  · cases err with
    | success => exact absurd rfl herr
    | _ => trivial
  · intro key hkey
    rw [if_neg herr] at hkey
    exact .inl hkey

theorem Inv.insert_of_succeeds (hcaller : state.calls[caller]? = some (.inserting entry))
    (hsucceeds : adder.succeeds outcome = true)
    (hnew : ¬state.table.Has adder.key (adder.key entry))
    (hroom : state.table.count + 1 < 2 ^ adder.width) :
    Inv adder (insert adder state caller entry outcome) := by
  have hhas := h.sound.has_append entry hroom
  have hcounted := h.sound.counted_append entry hroom
  rw [insert, hlawful.insertion_of_succeeds _ _ _ hsucceeds]
  refine h.set (.returned entry .success) hcaller rfl (h.sound.append hroom hnew)
    (keeps_of_subset ?_) ?_ ?_ ?_
  · intro object hobject
    rw [hcounted]
    exact mem_append_left _ hobject
  · intro object hobject
    rw [hcounted, mem_append, mem_singleton] at hobject
    rcases hobject with hbefore | rfl
    · exact .inl hbefore
    · exact .inr rfl
  · exact (hhas _).mpr (.inr rfl)
  · intro key hkey
    rw [if_pos rfl, mem_cons] at hkey
    rcases hkey with rfl | hbefore
    · exact .inr ((hhas _).mpr (.inr rfl))
    · exact .inl hbefore

theorem Inv.good_of_proper_insert (hcaller : state.calls[caller]? = some (.inserting entry))
    (hsucceeds : adder.succeeds outcome = true)
    (hproper : Proper adder (insert adder state caller entry outcome)) :
    ¬state.table.Has adder.key (adder.key entry) ∧ state.table.count + 1 < 2 ^ adder.width := by
  rw [insert, hlawful.insertion_of_succeeds _ _ _ hsucceeds] at hproper
  have hlt : caller < state.calls.length := (List.getElem?_eq_some_iff.mp hcaller).1
  have hroom : state.table.count + 1 < 2 ^ adder.width := by
    by_contra hfull
    -- The caller was told success, and nothing is counted any more.
    obtain ⟨object, hobject, -⟩ := hproper.served entry (mem_set hlt _)
    rw [h.sound.counted_append_of_wrap entry hfull] at hobject
    cases hobject
  refine ⟨fun hhas => ?_, hroom⟩
  have hnodup := hproper.nodup_keys
  rw [h.sound.counted_append entry hroom, map_append, map_singleton,
    nodup_append] at hnodup
  obtain ⟨object, hobject, hkey⟩ := hhas
  exact hnodup.2.2 _ (mem_map.mpr ⟨object, hobject, rfl⟩) _ (mem_singleton.mpr rfl) hkey

theorem Inv.step {event : Event Entry Outcome} (hgood : Good adder state event) :
    ∃ next, DeviceTables.step adder state event = some ((), next) ∧ Inv adder next := by
  cases event with
  | call entry =>
    cases entry with
    | none => exact ⟨state, rfl, h⟩
    | some entry =>
      refine ⟨_, rfl, h.sound, ?_, ?_, h.kept⟩
      · intro call hcall
        rcases mem_append.mp hcall with hbefore | hnew
        · exact h.justified call hbefore
        · rw [mem_singleton.mp hnew]
          trivial
      · intro object hobject
        obtain ⟨call, hcall, heq⟩ := h.values object hobject
        exact ⟨call, mem_append_left _ hcall, heq⟩
  | advance caller outcome =>
    cases hcall : state.calls[caller]? with
    | none => exact ⟨state, by simp only [DeviceTables.step, hcall], h⟩
    | some call =>
      cases call with
      | searching entry =>
        refine ⟨⟨state.table, state.calls.set caller (search adder state.table entry),
          state.added⟩, by simp only [DeviceTables.step, hcall], ?_⟩
        exact h.set _ hcall (entry_search _ _) h.sound
          (keeps_of_subset fun _ hobject => hobject) (fun _ hobject => .inl hobject)
          (justified_search entry) fun _ hkey => .inl hkey
      | overwriting entry found =>
        obtain ⟨old, hold, hkey⟩ := h.justified _ (mem_of_getElem? hcall)
        obtain ⟨table, hwrite, hsound, hkeeps, hvalues⟩ := h.sound.overwrite hold hkey
        have hhas : table.Has adder.key (adder.key entry) :=
          Keeps.has hkeeps ⟨(found, old), hold, hkey⟩
        refine ⟨⟨table, state.calls.set caller (.returned entry .success), state.added⟩,
          by simp only [DeviceTables.step, hcall, hwrite], ?_⟩
        exact h.set (.returned entry .success) hcall rfl hsound hkeeps hvalues hhas
          fun _ hkey => .inl hkey
      | inserting entry =>
        refine ⟨insert adder state caller entry outcome,
          by simp only [DeviceTables.step, hcall], ?_⟩
        cases hsucceeds : adder.succeeds outcome with
        | false => exact h.insert_of_fails hlawful hcall hsucceeds
        | true =>
          simp only [Good, hcall] at hgood
          obtain ⟨hnew, hroom⟩ := hgood hsucceeds
          exact h.insert_of_succeeds hlawful hcall hsucceeds hnew hroom
      | returned entry err => exact ⟨state, by simp only [DeviceTables.step, hcall], h⟩

theorem Inv.step_of_not_good {event : Event Entry Outcome} (hgood : ¬Good adder state event) :
    ∃ next, DeviceTables.step adder state event = some ((), next) ∧ ¬Proper adder next := by
  cases event with
  | call entry => exact absurd trivial hgood
  | advance caller outcome =>
    simp only [Good] at hgood
    split at hgood
    · rename_i entry hcall
      rw [Classical.not_imp] at hgood
      refine ⟨insert adder state caller entry outcome,
        by simp only [DeviceTables.step, hcall], fun hproper => hgood.2 ?_⟩
      exact h.good_of_proper_insert hlawful hcall hgood.1 hproper
    · exact absurd trivial hgood

omit hlawful

omit h

theorem throughout_proper_iff_good (hlawful : adder.Lawful) (events : List (Event Entry Outcome)) :
    Throughout (DeviceTables.step adder) (Proper adder) initialState events ↔
      Guarded (DeviceTables.step adder) (Good adder) initialState events := by
  have hlegal : Guarded (DeviceTables.step adder) (fun _ _ => True) initialState events :=
    guarded_of_forall (fun _ _ => trivial) _ _
  refine throughout_iff_guarded (fun _ h => h.proper) ?_ inv_initialState hlegal
  intro state event h _
  rcases em (Good adder state event) with hgood | hbad
  · obtain ⟨next, hstep, hinv⟩ := h.step hlawful hgood
    exact ⟨(), next, hstep, ⟨fun _ => hgood, fun _ => hinv.proper⟩, fun _ => hinv⟩
  · obtain ⟨next, hstep, hproper⟩ := h.step_of_not_good hlawful hbad
    exact ⟨(), next, hstep, ⟨fun h => absurd h hproper, fun h => absurd h hbad⟩,
      fun h => absurd h hbad⟩

end

theorem lawful_addEnumerationAttribute : addEnumerationAttribute.Lawful where
  insertion_of_succeeds := by
    rintro table entry ⟨attrTmp, newArray⟩ hsucceeds
    obtain ⟨rfl, rfl⟩ := Bool.and_eq_true_iff.mp hsucceeds
    rfl
  insertion_of_fails := by
    rintro table entry ⟨attrTmp, newArray⟩ hfails
    refine ⟨.memoryNomem, table, ?_, by decide, .inl rfl⟩
    cases attrTmp with
    | false => rfl
    | true =>
      cases newArray with
      | false => rfl
      | true => cases hfails

theorem lawful_addInstance : addInstance.Lawful where
  insertion_of_succeeds := by
    rintro table entry ⟨instances, ret⟩ hsucceeds
    obtain ⟨rfl, hret⟩ := Bool.and_eq_true_iff.mp hsucceeds
    rw [of_decide_eq_true hret]
    rfl
  insertion_of_fails := by
    rintro table entry ⟨instances, ret⟩ hfails
    cases instances with
    | false => exact ⟨.memoryNomem, table, rfl, by decide, .inl rfl⟩
    | true =>
      have hret : ret ≠ .success := of_decide_eq_false hfails
      exact ⟨ret, table.extend entry, if_pos hret, hret, .inr rfl⟩

/-- The attributes of a device and the instances of a driver are proper throughout exactly the
runs in which no insertion follows one of its key, and none makes the counter wrap. -/
theorem throughout_proper_iff_good_insertions (attrEvents : List (Event InstanceAttr (Bool × Bool)))
    (instanceEvents : List (Event DriverInstance (Bool × Kerror))) :
    (Throughout (step addEnumerationAttribute) (Proper addEnumerationAttribute) initialState
        attrEvents ↔
      Guarded (step addEnumerationAttribute) (Good addEnumerationAttribute) initialState
        attrEvents) ∧
    (Throughout (step addInstance) (Proper addInstance) initialState instanceEvents ↔
      Guarded (step addInstance) (Good addInstance) initialState instanceEvents) :=
  ⟨throughout_proper_iff_good lawful_addEnumerationAttribute attrEvents,
    throughout_proper_iff_good lawful_addInstance instanceEvents⟩

/-- Two threads add an attribute of one name, and both search before either inserts. -/
def twoAdders : List (Event InstanceAttr (Bool × Bool)) :=
  [.call (some ⟨"bus_type", 1, [112]⟩), .call (some ⟨"bus_type", 1, [105]⟩),
    .advance 0 (true, true), .advance 1 (true, true), .advance 0 (true, true),
    .advance 1 (true, true)]

theorem twoAdders_not_proper :
    ¬Throughout (step addEnumerationAttribute) (Proper addEnumerationAttribute) initialState
      twoAdders := by
  intro h
  obtain ⟨results, last, hrun, hlast⟩ := h.last
  have hkeys : (run (step addEnumerationAttribute) initialState twoAdders).map (fun answer =>
      answer.2.table.counted.map fun object => addEnumerationAttribute.key object.2) =
        some ["bus_type", "bus_type"] := by
    decide +kernel
  rw [hrun, Option.map_some, Option.some.injEq] at hkeys
  have hnodup := hlast.nodup_keys
  rw [hkeys] at hnodup
  revert hnodup
  decide

end Zambesii.DeviceTables
