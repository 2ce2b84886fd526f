import Weft.Attributes.Value
import Weft.Lib.Machine

/-! `buildIndexOperations`: the difference between two sets of attributes as operations on
the index, and the index after a run of updates. -/

namespace Weft.Attributes
open Weft.Js Weft.Storage Weft.Lib

universe u

variable {V : Type u}

/-! ## Properties of a record -/

/-- The names that every object has from `Object.prototype`. -/
def OBJECT_PROTOTYPE_NAMES : List JsString :=
  [js "constructor", js "__defineGetter__", js "__defineSetter__", js "hasOwnProperty",
    js "__lookupGetter__", js "__lookupSetter__", js "isPrototypeOf", js "propertyIsEnumerable",
    js "toString", js "valueOf", js "__proto__", js "toLocaleString"]

/-- What `record[name]` is: an inherited property is no attribute value. -/
inductive Property where
  | value (value : SearchAttributeValue)
  | inherited
  | undefined
deriving DecidableEq

def AttributeRecord.read (record : AttributeRecord) (name : JsString) : Property :=
  match record.get name with
  | some value => .value value
  | none => if name ∈ OBJECT_PROTOTYPE_NAMES then .inherited else .undefined

def AttributeRecord.has (record : AttributeRecord) (name : JsString) : Bool :=
  record.read name ≠ .undefined

def AttributeRecord.names (record : AttributeRecord) : List JsString := record.entries.map (·.1)

def emptyRecord : AttributeRecord := ⟨[], List.nodup_nil⟩

/-! ## Index operations -/

def valuesEqual : Property → Property → Bool
  | .value (.scalar a), .value (.scalar b) => a.equal b
  | _, _ => false

/-- `none` where `encodeAttributeValue` throws: arrays, and what is no value at all. -/
def indexKey (attributeName : JsString) (value : Property) (workflowId : Component) :
    Option JsString :=
  match value with
  | .value (.scalar scalar) =>
    some (KEYS.attributeIndex attributeName (encodeAttributeValue scalar) workflowId)
  | _ => none

section

variable (emptyValue : V)

def putIndexOperation (attributeName : JsString) (value : Property) (workflowId : Component) :
    Option (BatchOperation V) :=
  (indexKey attributeName value workflowId).map fun key => .put key emptyValue

def deleteIndexOperation (attributeName : JsString) (value : Property)
    (workflowId : Component) : Option (BatchOperation V) :=
  (indexKey attributeName value workflowId).map .delete

def buildScalarTransitionOperations (attributeName : JsString) (workflowId : Component)
    (oldValue newValue : Property) (hadOld hasNew : Bool) : Option (List (BatchOperation V)) :=
  if hadOld && !hasNew then
    (deleteIndexOperation attributeName oldValue workflowId).map ([·])
  else if !hadOld && hasNew then
    (putIndexOperation emptyValue attributeName newValue workflowId).map ([·])
  else if hadOld && hasNew && !valuesEqual oldValue newValue then do
    let deletion ← deleteIndexOperation attributeName oldValue workflowId
    let insertion ← putIndexOperation emptyValue attributeName newValue workflowId
    return [deletion, insertion]
  else some []

def stringProperty (element : JsString) : Property := .value (.scalar (.string element))

def buildArrayDiffOperations (attributeName : JsString) (oldValues newValues : List JsString)
    (workflowId : Component) : Option (List (BatchOperation V)) := do
  let oldElements := toSet oldValues
  let newElements := toSet newValues
  let deletions ← (oldElements.filter (· ∉ newElements)).mapM fun element =>
    deleteIndexOperation attributeName (stringProperty element) workflowId
  let insertions ← (newElements.filter (· ∉ oldElements)).mapM fun element =>
    putIndexOperation emptyValue attributeName (stringProperty element) workflowId
  return deletions ++ insertions

def valuesForIndexTransition : Property → List Property
  | .undefined => []
  | .value (.keywords values) => values.map stringProperty
  | value => [value]

def buildDeleteOperationsForValues (attributeName : JsString) (value : Property)
    (workflowId : Component) : Option (List (BatchOperation V)) :=
  (valuesForIndexTransition value).mapM fun element =>
    deleteIndexOperation attributeName element workflowId

def buildPutOperationsForValues (attributeName : JsString) (value : Property)
    (workflowId : Component) : Option (List (BatchOperation V)) :=
  (valuesForIndexTransition value).mapM fun element =>
    putIndexOperation emptyValue attributeName element workflowId

def buildArrayTransitionOperations (attributeName : JsString) (workflowId : Component)
    (oldValue newValue : Property) (hadOld hasNew : Bool) : Option (List (BatchOperation V)) :=
  match oldValue, newValue with
  | .value (.keywords oldValues), .value (.keywords newValues) =>
    buildArrayDiffOperations emptyValue attributeName oldValues newValues workflowId
  | _, _ => do
    let deletions ← buildDeleteOperationsForValues attributeName
      (if hadOld then oldValue else .undefined) workflowId
    let insertions ← buildPutOperationsForValues emptyValue attributeName
      (if hasNew then newValue else .undefined) workflowId
    return deletions ++ insertions

def Property.isArray : Property → Bool
  | .value (.keywords _) => true
  | _ => false

def buildAttributeIndexOperations (attributeName : JsString) (workflowId : Component)
    (previous current : AttributeRecord) : Option (List (BatchOperation V)) :=
  let oldValue := previous.read attributeName
  let newValue := current.read attributeName
  let hadOld := previous.has attributeName
  let hasNew := current.has attributeName
  if oldValue.isArray || newValue.isArray then
    buildArrayTransitionOperations emptyValue attributeName workflowId oldValue newValue hadOld
      hasNew
  else buildScalarTransitionOperations emptyValue attributeName workflowId oldValue newValue hadOld
    hasNew

def allKeys (previous current : AttributeRecord) : List JsString :=
  toSet (previous.names ++ current.names)

def buildIndexOperations (workflowId : Component) (previous current : AttributeRecord) :
    Option (List (BatchOperation V)) :=
  ((allKeys previous current).mapM fun attributeName =>
    buildAttributeIndexOperations emptyValue attributeName workflowId previous current).map
      List.flatten

end

/-! ## What one attribute changes -/

/-- The values whose rows are deleted when an attribute goes from `old` to `new`. -/
def removed : Option SearchAttributeValue → Option SearchAttributeValue → List Scalar
  | some (.keywords old), some (.keywords new) =>
    ((toSet old).filter (· ∉ toSet new)).map .string
  | some (.scalar old), some (.scalar new) => if old.equal new then [] else [old]
  | old, _ => (old.map storedAttributeScalarValues).getD []

/-- The values whose rows are written. -/
def added : Option SearchAttributeValue → Option SearchAttributeValue → List Scalar
  | some (.keywords old), some (.keywords new) =>
    ((toSet new).filter (· ∉ toSet old)).map .string
  | some (.scalar old), some (.scalar new) => if old.equal new then [] else [new]
  | _, new => (new.map storedAttributeScalarValues).getD []

section

variable (emptyValue : V) (name : JsString) (id : Component)

def rowKey (scalar : Scalar) : JsString :=
  KEYS.attributeIndex name (encodeAttributeValue scalar) id

def changes (old new : Option SearchAttributeValue) : List (BatchOperation V) :=
  (removed old new).map (fun scalar => BatchOperation.delete (rowKey name id scalar)) ++
    (added old new).map fun scalar => BatchOperation.put (rowKey name id scalar) emptyValue

theorem deleteOperations_value (value : SearchAttributeValue) :
    buildDeleteOperationsForValues (V := V) name (.value value) id =
      some ((storedAttributeScalarValues value).map fun scalar =>
        .delete (rowKey name id scalar)) := by
  cases value with
  | scalar scalar => rfl
  | keywords values =>
    show (values.map stringProperty).mapM _ = _
    rw [List.mapM_map]
    refine (List.mapM_pure).trans ?_
    simp only [storedAttributeScalarValues, List.map_map]
    rfl

theorem putOperations_value (value : SearchAttributeValue) :
    buildPutOperationsForValues emptyValue name (.value value) id =
      some ((storedAttributeScalarValues value).map fun scalar =>
        .put (rowKey name id scalar) emptyValue) := by
  cases value with
  | scalar scalar => rfl
  | keywords values =>
    show (values.map stringProperty).mapM _ = _
    rw [List.mapM_map]
    refine (List.mapM_pure).trans ?_
    simp only [storedAttributeScalarValues, List.map_map]
    rfl

theorem arrayDiff_eq (oldValues newValues : List JsString) :
    buildArrayDiffOperations emptyValue name oldValues newValues id =
      some (changes emptyValue name id (some (.keywords oldValues))
        (some (.keywords newValues))) := by
  have hdel : ((toSet oldValues).filter (· ∉ toSet newValues)).mapM (fun element =>
      deleteIndexOperation (V := V) name (stringProperty element) id) =
        some (((toSet oldValues).filter (· ∉ toSet newValues)).map fun element =>
          .delete (rowKey name id (.string element))) := List.mapM_pure
  have hput : ((toSet newValues).filter (· ∉ toSet oldValues)).mapM (fun element =>
      putIndexOperation emptyValue name (stringProperty element) id) =
        some (((toSet newValues).filter (· ∉ toSet oldValues)).map fun element =>
          .put (rowKey name id (.string element)) emptyValue) := List.mapM_pure
  simp only [buildArrayDiffOperations, hdel, hput, changes, removed, added, List.map_map]
  rfl

def Property.ofOption : Option SearchAttributeValue → Property
  | some stored => .value stored
  | none => .undefined

/-- The operations for two properties, of which `undefined` is not there. -/
def transition (oldValue newValue : Property) : Option (List (BatchOperation V)) :=
  if oldValue.isArray || newValue.isArray then
    buildArrayTransitionOperations emptyValue name id oldValue newValue
      (oldValue ≠ .undefined) (newValue ≠ .undefined)
  else buildScalarTransitionOperations emptyValue name id oldValue newValue
    (oldValue ≠ .undefined) (newValue ≠ .undefined)

theorem transition_values (old new : Option SearchAttributeValue) :
    transition emptyValue name id (.ofOption old) (.ofOption new) =
      some (changes emptyValue name id old new) := by
  cases old with
  | none =>
    cases new with
    | none => rfl
    | some new =>
      cases new with
      | scalar b => rfl
      | keywords newValues =>
        show (buildPutOperationsForValues emptyValue name (.value (.keywords newValues)) id).bind
          _ = _
        rw [putOperations_value]
        rfl
  | some old =>
    cases old with
    | scalar a =>
      cases new with
      | none => rfl
      | some new =>
        cases new with
        | scalar b =>
          show (if (!a.equal b) = true then _ else some []) = _
          cases hequal : a.equal b with
          | true => simp [changes, removed, added, hequal]
          | false =>
            simp only [changes, removed, added, hequal]
            rfl
        | keywords newValues =>
          show (buildPutOperationsForValues emptyValue name (.value (.keywords newValues)) id).bind
            _ = _
          rw [putOperations_value]
          rfl
    | keywords oldValues =>
      cases new with
      | none =>
        show (buildDeleteOperationsForValues name (.value (.keywords oldValues)) id).bind _ = _
        rw [deleteOperations_value]
        rfl
      | some new =>
        cases new with
        | scalar b =>
          show (buildDeleteOperationsForValues name (.value (.keywords oldValues)) id).bind _ = _
          rw [deleteOperations_value]
          rfl
        | keywords newValues => exact arrayDiff_eq emptyValue name id oldValues newValues

theorem transition_inherited_left {newValue : Property} (h : newValue ≠ .inherited) :
    transition emptyValue name id .inherited newValue = none := by
  cases newValue with
  | inherited => exact (h rfl).elim
  | undefined => rfl
  | value stored =>
    cases stored with
    | scalar b => rfl
    | keywords newValues => rfl

theorem transition_inherited_right {oldValue : Property} (h : oldValue ≠ .inherited) :
    transition emptyValue name id oldValue .inherited = none := by
  cases oldValue with
  | inherited => exact (h rfl).elim
  | undefined => rfl
  | value stored =>
    cases stored with
    | scalar a => rfl
    | keywords oldValues =>
      show (buildDeleteOperationsForValues name (.value (.keywords oldValues)) id).bind _ = _
      rw [deleteOperations_value]
      rfl

variable {emptyValue name id}

theorem read_eq (record : AttributeRecord) : record.read name = .ofOption (record.get name) ∨
      record.read name = .inherited ∧ record.get name = none := by
  rw [AttributeRecord.read]
  cases record.get name with
  | some stored => exact .inl rfl
  | none =>
    by_cases hname : name ∈ OBJECT_PROTOTYPE_NAMES
    · exact .inr ⟨if_pos hname, rfl⟩
    · exact .inl (if_neg hname)

theorem ofOption_ne_inherited (stored : Option SearchAttributeValue) :
    Property.ofOption stored ≠ .inherited := by
  cases stored with
  | none => exact nofun
  | some stored => exact nofun

variable {previous current : AttributeRecord}

variable {ops : List (BatchOperation V)}

/-- Where the operations of an attribute can be built, they delete the rows of the values
that went and then write the rows of those that came. -/
theorem buildAttributeIndexOperations_eq
    (h : buildAttributeIndexOperations emptyValue name id previous current = some ops)
    (hown : previous.get name ≠ none ∨ current.get name ≠ none) :
    ops = changes emptyValue name id (previous.get name) (current.get name) := by
  replace h : transition emptyValue name id (previous.read name) (current.read name) = some ops := h
  rcases read_eq previous with hold | ⟨hold, hnone⟩
  · rcases read_eq current with hnew | ⟨hnew, -⟩
    · rw [hold, hnew, transition_values] at h
      exact (Option.some.inj h).symm
    · rw [hold, hnew, transition_inherited_right _ _ _ (ofOption_ne_inherited _)] at h
      cases h
  · rcases read_eq current with hnew | ⟨-, hnone'⟩
    · rw [hold, hnew, transition_inherited_left _ _ _ (ofOption_ne_inherited _)] at h
      cases h
    · rcases hown with hown | hown
      · exact (hown hnone).elim
      · exact (hown hnone').elim

theorem mem_names {record : AttributeRecord} : name ∈ record.names ↔ record.get name ≠ none := by
  rw [AttributeRecord.names, List.mem_map, Option.ne_none_iff_exists']
  simp only [AttributeRecord.get_eq_some]
  constructor
  · rintro ⟨⟨name', stored⟩, hmem, rfl⟩
    exact ⟨stored, hmem⟩
  · rintro ⟨stored, hmem⟩
    exact ⟨_, hmem, rfl⟩

theorem mem_allKeys :
    name ∈ allKeys previous current ↔ previous.get name ≠ none ∨ current.get name ≠ none := by
  rw [allKeys, mem_toSet, List.mem_append, mem_names, mem_names]

theorem buildIndexOperations_eq
    (h : buildIndexOperations emptyValue id previous current = some ops) :
    ops = (allKeys previous current).flatMap fun name =>
      changes emptyValue name id (previous.get name) (current.get name) := by
  obtain ⟨parts, hparts, rfl⟩ := Option.map_eq_some_iff.1 h
  clear h
  have hown : ∀ name ∈ allKeys previous current,
      previous.get name ≠ none ∨ current.get name ≠ none := fun name => mem_allKeys.1
  generalize allKeys previous current = names at hparts hown
  induction names generalizing parts with
  | nil =>
    cases hparts
    rfl
  | cons name names ih =>
    rw [List.mapM_cons] at hparts
    obtain ⟨part, hpart, hparts⟩ := Option.bind_eq_some_iff.1 hparts
    obtain ⟨rest, hrest, hparts⟩ := Option.bind_eq_some_iff.1 hparts
    cases hparts
    rw [List.flatten_cons, List.flatMap_cons,
      buildAttributeIndexOperations_eq hpart (hown name List.mem_cons_self),
      ih rest hrest fun name hname => hown name (List.mem_cons_of_mem _ hname)]

end

/-! ## Texts that an update touches -/

/-- A row of a record, without the workflow it belongs to. -/
def Carries (record : AttributeRecord) (text : JsString) : Prop :=
  ∃ name scalar, HasValue record name scalar ∧ rowText name scalar = text

section

variable (previous current : AttributeRecord)

def Removes (name text : JsString) : Prop :=
  ∃ scalar ∈ removed (previous.get name) (current.get name), rowText name scalar = text

def Adds (name text : JsString) : Prop :=
  ∃ scalar ∈ added (previous.get name) (current.get name), rowText name scalar = text

/-- An attribute that goes from one zero to the other. -/
def ZeroFlips (name : JsString) (a b : Float64) : Prop :=
  previous.get name = some (.scalar (.number a)) ∧ current.get name = some (.scalar (.number b)) ∧
    a.isZero = true ∧ b.isZero = true ∧ a ≠ b

/-- An update that leaves the rows of `current`. A text that is deleted under one name and
carried under another has to be written again, under the same name or a later one, and no
attribute may go from one zero to the other, unless the rows of other names make up for it. -/
structure Clean : Prop where
  order : ∀ name after text, name :: after <:+ allKeys previous current →
    Removes previous current name text → Carries current text →
      ∃ name' ∈ name :: after, Adds previous current name' text
  zero : ∀ name a b, ZeroFlips previous current name a b →
    (Carries previous (rowText name (.number b)) ∨
      ∃ name', Adds previous current name' (rowText name (.number b))) ∧
    (Carries current (rowText name (.number a)) ∨
      ∃ name', Removes previous current name' (rowText name (.number a)))

end

variable {previous current : AttributeRecord}

theorem added_eq_removed (old new : Option SearchAttributeValue) :
    added old new = removed new old := by
  cases old with
  | none =>
    cases new with
    | none => rfl
    | some new => cases new <;> rfl
  | some old =>
    cases new with
    | none => cases old <;> rfl
    | some new =>
      cases old with
      | scalar a =>
        cases new with
        | scalar b => simp only [added, removed, a.equal_comm b]
        | keywords values => rfl
      | keywords values => cases new <;> rfl

variable {scalar : Scalar}

theorem mem_removed {old new : Option SearchAttributeValue} (h : scalar ∈ removed old new) :
    ∃ value, old = some value ∧ scalar ∈ storedAttributeScalarValues value := by
  cases old with
  | none => cases h
  | some old =>
    refine ⟨old, rfl, ?_⟩
    cases new with
    | none => cases old <;> exact h
    | some new =>
      cases old with
      | scalar a =>
        cases new with
        | scalar b =>
          simp only [removed] at h
          split_ifs at h
          · cases h
          · exact h
        | keywords values => exact h
      | keywords values =>
        cases new with
        | scalar b => exact h
        | keywords newValues =>
          obtain ⟨element, hmem, rfl⟩ := List.mem_map.1 h
          exact List.mem_map.2 ⟨element, mem_toSet.1 (List.mem_filter.1 hmem).1, rfl⟩

/-- An old value is deleted, still there, or a zero that only changes its sign. -/
theorem old_cases {name : JsString} (h : HasValue previous name scalar) :
    scalar ∈ removed (previous.get name) (current.get name) ∨ HasValue current name scalar ∨
      ∃ a b, scalar = .number a ∧ ZeroFlips previous current name a b := by
  obtain ⟨old, hold, hmem⟩ := h
  cases hnew : current.get name with
  | none =>
    left
    rw [hold]
    cases old <;> exact hmem
  | some new =>
    cases old with
    | scalar a =>
      obtain rfl := List.mem_singleton.1 hmem
      cases new with
      | scalar b =>
        cases hequal : scalar.equal b with
        | false => exact .inl (by simp [hold, removed, hequal])
        | true =>
          right
          rcases Scalar.equal_cases hequal with rfl | ⟨x, y, rfl, rfl, hx, hy, hne⟩
          · exact .inl ⟨.scalar scalar, hnew, List.mem_singleton.2 rfl⟩
          · exact .inr ⟨x, y, rfl, hold, hnew, hx, hy, hne⟩
      | keywords values => exact .inl (by rw [hold]; exact hmem)
    | keywords values =>
      cases new with
      | scalar b => exact .inl (by rw [hold]; exact hmem)
      | keywords newValues =>
        obtain ⟨element, helement, rfl⟩ := List.mem_map.1 hmem
        by_cases hin : element ∈ newValues
        · exact .inr (.inl ⟨_, hnew, List.mem_map.2 ⟨element, hin, rfl⟩⟩)
        · refine .inl ?_
          rw [hold]
          refine List.mem_map.2 ⟨element, List.mem_filter.2 ⟨mem_toSet.2 helement, ?_⟩, rfl⟩
          simpa using hin

/-- A new value is written, was there before, or is a zero that only changed its sign. -/
theorem new_cases {name : JsString} (h : HasValue current name scalar) :
    scalar ∈ added (previous.get name) (current.get name) ∨ HasValue previous name scalar ∨
      ∃ a b, scalar = .number b ∧ ZeroFlips previous current name a b := by
  rw [added_eq_removed]
  rcases old_cases h with hrem | hvalue | ⟨a, b, heq, hcur, hprev, ha, hb, hne⟩
  · exact .inl hrem
  · exact .inr (.inl hvalue)
  · exact .inr (.inr ⟨b, a, heq, hprev, hcur, hb, ha, hne.symm⟩)

variable {name text : JsString}

theorem Removes.name_mem (h : Removes previous current name text) :
    name ∈ allKeys previous current := by
  obtain ⟨scalar, hmem, -⟩ := h
  obtain ⟨value, hold, -⟩ := mem_removed hmem
  exact mem_allKeys.2 (.inl (by rw [hold]; exact nofun))

theorem Adds.carries (h : Adds previous current name text) : Carries current text := by
  obtain ⟨scalar, hmem, rfl⟩ := h
  rw [added_eq_removed] at hmem
  obtain ⟨value, hnew, hvalue⟩ := mem_removed hmem
  exact ⟨name, scalar, ⟨value, hnew, hvalue⟩, rfl⟩

theorem Adds.name_mem (h : Adds previous current name text) : name ∈ allKeys previous current := by
  obtain ⟨scalar, hmem, -⟩ := h
  rw [added_eq_removed] at hmem
  obtain ⟨value, hnew, -⟩ := mem_removed hmem
  exact mem_allKeys.2 (.inr (by rw [hnew]; exact nofun))

/-! ## Clean updates -/

/-- The text is there after the update: written and not deleted since, or not deleted. -/
def Remains (previous current : AttributeRecord) (text : JsString) : Prop :=
  (∃ name after, name :: after <:+ allKeys previous current ∧ Adds previous current name text ∧
    ∀ name ∈ after, ¬ Removes previous current name text) ∨
  Carries previous text ∧ ∀ name ∈ allKeys previous current, ¬ Removes previous current name text

theorem exists_last {α : Type*} {p : α → Prop} {xs : List α} (h : ∃ x ∈ xs, p x) :
    ∃ x after, x :: after <:+ xs ∧ p x ∧ ∀ y ∈ after, ¬ p y := by
  induction xs with
  | nil =>
    obtain ⟨x, hx, -⟩ := h
    cases hx
  | cons z xs ih =>
    by_cases hrest : ∃ x ∈ xs, p x
    · obtain ⟨x, after, hsuffix, hx, hafter⟩ := ih hrest
      exact ⟨x, after, hsuffix.trans (List.suffix_cons z xs), hx, hafter⟩
    · obtain ⟨x, hx, hpx⟩ := h
      rcases List.mem_cons.1 hx with rfl | hx
      · exact ⟨x, xs, List.suffix_refl _, hpx, fun y hy hpy => hrest ⟨y, hy, hpy⟩⟩
      · exact (hrest ⟨x, hx, hpx⟩).elim

/-- A text written under a name from which on it is not deleted any more. -/
theorem remains_of_adds {name name' : JsString} {after : List JsString} {text : JsString}
    (hsuffix : name :: after <:+ allKeys previous current)
    (hnone : ∀ name ∈ after, ¬ Removes previous current name text)
    (hmem : name' ∈ name :: after) (hadds : Adds previous current name' text) :
    Remains previous current text := by
  rcases List.mem_cons.1 hmem with rfl | hmem
  · exact .inl ⟨name', after, hsuffix, hadds, hnone⟩
  · obtain ⟨before, rest, rfl⟩ := List.append_of_mem hmem
    have hrest : name' :: rest <:+ name :: (before ++ name' :: rest) :=
      (List.suffix_append before _).trans (List.suffix_cons name _)
    refine .inl ⟨name', rest, hrest.trans hsuffix, hadds, fun n hn => hnone n ?_⟩
    exact List.mem_append_right _ (List.mem_cons_of_mem _ hn)

theorem remains_of_never_removed (hadds : Adds previous current name text)
    (hnone : ∀ name, ¬ Removes previous current name text) : Remains previous current text := by
  obtain ⟨before, after, heq⟩ := List.append_of_mem hadds.name_mem
  exact .inl ⟨name, after, ⟨before, heq.symm⟩, hadds, fun name _ => hnone name⟩

/-- An update leaves the rows of the current attributes if and only if it is clean. -/
theorem remains_iff_carries_iff_clean :
    (∀ text, Remains previous current text ↔ Carries current text) ↔ Clean previous current := by
  constructor
  · intro h
    refine ⟨fun name after text hsuffix hrem hcarries => ?_, fun name a b hflip => ⟨?_, ?_⟩⟩
    · rcases (h text).2 hcarries with ⟨name', after', hsuffix', hadds, hnone⟩ | ⟨-, hnone⟩
      · refine ⟨name', ?_, hadds⟩
        rcases List.suffix_or_suffix_of_suffix hsuffix hsuffix' with hsub | hsub
        · rcases List.suffix_cons_iff.1 hsub with heq | hsub
          · rw [heq]
            exact List.mem_cons_self
          · exact (hnone name (hsub.subset List.mem_cons_self) hrem).elim
        · exact hsub.subset List.mem_cons_self
      · exact (hnone name hrem.name_mem hrem).elim
    · have hcarries : Carries current (rowText name (.number b)) :=
        ⟨name, _, ⟨_, hflip.2.1, List.mem_singleton.2 rfl⟩, rfl⟩
      rcases (h _).2 hcarries with ⟨name', -, -, hadds, -⟩ | ⟨hprev, -⟩
      · exact .inr ⟨name', hadds⟩
      · exact .inl hprev
    · have hcarries : Carries previous (rowText name (.number a)) :=
        ⟨name, _, ⟨_, hflip.1, List.mem_singleton.2 rfl⟩, rfl⟩
      by_cases hrem : ∃ name', Removes previous current name' (rowText name (.number a))
      · exact .inr hrem
      · exact .inl ((h _).1 (.inr ⟨hcarries, fun name' _ hrem' => hrem ⟨name', hrem'⟩⟩))
  · intro hclean text
    constructor
    · rintro (⟨name, after, -, hadds, -⟩ | ⟨⟨name, scalar, hvalue, rfl⟩, hnone⟩)
      · exact hadds.carries
      · rcases old_cases hvalue with hrem | hkept | ⟨a, b, rfl, hflip⟩
        · have hremoves : Removes previous current name (rowText name scalar) := ⟨scalar, hrem, rfl⟩
          exact (hnone name hremoves.name_mem hremoves).elim
        · exact ⟨name, scalar, hkept, rfl⟩
        · rcases (hclean.zero name a b hflip).2 with hcarries | ⟨name', hrem⟩
          · exact hcarries
          · exact (hnone name' hrem.name_mem hrem).elim
    · intro hcarries
      by_cases hrem : ∃ name ∈ allKeys previous current, Removes previous current name text
      · obtain ⟨name, after, hsuffix, hlast, hnone⟩ := exists_last hrem
        obtain ⟨name', hmem, hadds⟩ := hclean.order name after text hsuffix hlast hcarries
        exact remains_of_adds hsuffix hnone hmem hadds
      · have hnone : ∀ name, ¬ Removes previous current name text :=
          fun name h => hrem ⟨name, h.name_mem, h⟩
        obtain ⟨name, scalar, hvalue, rfl⟩ := hcarries
        rcases new_cases hvalue with hadd | hkept | ⟨a, b, rfl, hflip⟩
        · exact remains_of_never_removed ⟨scalar, hadd, rfl⟩ hnone
        · exact .inr ⟨⟨name, scalar, hkept, rfl⟩, fun name _ => hnone name⟩
        · rcases (hclean.zero name a b hflip).1 with hprev | ⟨name', hadds⟩
          · exact .inr ⟨hprev, fun name _ => hnone name⟩
          · exact remains_of_never_removed hadds hnone

/-! ## Runs of updates -/

/-- The store, and the attributes that each workflow has. -/
structure IndexedAttributes (V : Type u) where
  store : Store V
  attributes : Component → AttributeRecord

def updateAttributes (emptyValue : V) (s : IndexedAttributes V)
    (update : Component × AttributeRecord) : Option (IndexedAttributes V) := do
  let operations ← buildIndexOperations emptyValue update.1 (s.attributes update.1) update.2
  let store ← batch s.store operations
  return { store := store, attributes := Function.update s.attributes update.1 update.2 }

/-- Updates of any workflows in any order; one that cannot be built or applied ends the run. -/
def attributeMachine (emptyValue : V) :
    Machine (IndexedAttributes V) (Component × AttributeRecord) :=
  ⟨updateAttributes emptyValue⟩

def indexRow (id : Component) (text : JsString) : JsString :=
  js "idx:" ++ (text ++ colon :: id.enc)

/-- Of the keys `idx:...:id` the store has those of the current values of `id`. -/
def RowsExact (s : IndexedAttributes V) : Prop :=
  ∀ id text, (s.store.get (indexRow id text)).isSome ↔
    indexRow id text ∈ attributeRows id (s.attributes id)

theorem indexRow_inj {id id' : Component} {text text' : JsString}
    (h : indexRow id text = indexRow id' text') : id = id' ∧ text = text' := by
  have hrow := List.append_cancel_left h
  have hid := congrArg afterLastColon hrow
  rw [afterLastColon_append id.colon_notMem, afterLastColon_append id'.colon_notMem] at hid
  obtain rfl := Component.enc_injective hid
  exact ⟨rfl, List.append_cancel_right hrow⟩

theorem indexRow_mem_attributeRows {id : Component} {record : AttributeRecord}
    {text : JsString} : indexRow id text ∈ attributeRows id record ↔ Carries record text := by
  rw [mem_attributeRows]
  simp only [attributeIndex_eq]
  constructor
  · rintro ⟨name, scalar, hvalue, heq⟩
    exact ⟨name, scalar, hvalue, (indexRow_inj heq).2.symm⟩
  · rintro ⟨name, scalar, hvalue, rfl⟩
    exact ⟨name, scalar, hvalue, rfl⟩

theorem indexRow_mem_rowKeys {id id' : Component} {scalars : List Scalar} :
    indexRow id text ∈ scalars.map (rowKey name id') ↔
      id = id' ∧ ∃ scalar ∈ scalars, rowText name scalar = text := by
  simp only [List.mem_map, rowKey, attributeIndex_eq]
  constructor
  · rintro ⟨scalar, hmem, heq⟩
    obtain ⟨rfl, htext⟩ := indexRow_inj heq
    exact ⟨rfl, scalar, hmem, htext⟩
  · rintro ⟨rfl, scalar, hmem, rfl⟩
    exact ⟨scalar, hmem, rfl⟩

variable {emptyValue : V} {s t : IndexedAttributes V} {update : Component × AttributeRecord}

section

variable (h : updateAttributes emptyValue s update = some t)

include h

theorem update_cases : t.attributes = Function.update s.attributes update.1 update.2 ∧
      t.store = applyBatchOperations s.store
        ((allKeys (s.attributes update.1) update.2).flatMap fun name =>
          changes emptyValue name update.1 ((s.attributes update.1).get name)
            (update.2.get name)) := by
  obtain ⟨ops, hops, h⟩ := Option.bind_eq_some_iff.1 h
  obtain ⟨store, hstore, h⟩ := Option.bind_eq_some_iff.1 h
  cases h
  unfold batch at hstore
  split_ifs at hstore
  cases hstore
  refine ⟨rfl, ?_⟩
  rw [← buildIndexOperations_eq hops]

/-- An update touches the rows of its own workflow only, -/
theorem update_other {id : Component} (hid : id ≠ update.1) (text : JsString) :
    t.store.get (indexRow id text) = s.store.get (indexRow id text) := by
  rw [(update_cases h).2]
  refine get_applyBatchOperations_of_untouched _ _ _ fun op hop hkey => hid ?_
  obtain ⟨name, -, hop⟩ := List.mem_flatMap.1 hop
  have hrow : ∀ scalar, rowKey name update.1 scalar = indexRow id text → id = update.1 := by
    intro scalar heq
    rw [rowKey, attributeIndex_eq] at heq
    exact (indexRow_inj heq).1.symm
  rcases List.mem_append.1 hop with hop | hop
  · obtain ⟨scalar, -, rfl⟩ := List.mem_map.1 hop
    exact hrow scalar hkey
  · obtain ⟨scalar, -, rfl⟩ := List.mem_map.1 hop
    exact hrow scalar hkey

/-- and leaves of these what remains of the previous attributes. -/
theorem update_own (hs : RowsExact s) (text : JsString) :
    (t.store.get (indexRow update.1 text)).isSome ↔
      Remains (s.attributes update.1) update.2 text := by
  have hparts := isSome_applyBatchOperations_parts s.store emptyValue
    (fun name => (removed ((s.attributes update.1).get name) (update.2.get name)).map
      (rowKey name update.1))
    (fun name => (added ((s.attributes update.1).get name) (update.2.get name)).map
      (rowKey name update.1))
    (allKeys (s.attributes update.1) update.2) (indexRow update.1 text)
  simp only [List.map_map, indexRow_mem_rowKeys, true_and, hs update.1 text,
    indexRow_mem_attributeRows] at hparts
  rw [(update_cases h).2]
  exact hparts

/-- An update of an exact index leaves it exact if and only if it is clean. -/
theorem rowsExact_update_iff (hs : RowsExact s) :
    RowsExact t ↔ Clean (s.attributes update.1) update.2 := by
  rw [← remains_iff_carries_iff_clean]
  have hattr := (update_cases h).1
  constructor
  · intro ht text
    rw [← update_own h hs, ht, hattr, Function.update_self, indexRow_mem_attributeRows]
  · intro hremains id text
    by_cases hid : id = update.1
    · subst hid
      rw [update_own h hs, hremains, hattr, Function.update_self, indexRow_mem_attributeRows]
    · rw [update_other h hid, hattr, Function.update_of_ne hid]
      exact hs id text

end

/-- In a run from an exact index, the rows of every workflow are those of its current values in
every state if and only if every update is clean. -/
theorem attribute_rows_exact_iff_updates_clean (emptyValue : V) (s : IndexedAttributes V)
    (updates : List (Component × AttributeRecord)) :
    (attributeMachine emptyValue).EveryState RowsExact s updates ↔
      RowsExact s ∧ (attributeMachine emptyValue).EveryStep
        (fun s update => Clean (s.attributes update.1) update.2) s updates :=
  Machine.everyState_iff_everyStep (J := fun _ => True)
    (fun _ _ _ _ hs h => ⟨trivial, rowsExact_update_iff h hs⟩) trivial

/-! ## A zero that changes its sign -/

def noAttributes (V : Type u) : IndexedAttributes V := ⟨OrderedStore.empty, fun _ => emptyRecord⟩

theorem noAttributes_exact : RowsExact (noAttributes V) := by
  intro id text
  rw [indexRow_mem_attributeRows]
  constructor
  · intro h
    cases h
  · rintro ⟨name, scalar, ⟨value, hget, -⟩, -⟩
    cases hget

def scoreRecord (score : Float64) : AttributeRecord where
  entries := [(js "score", .scalar (.number score))]
  nodup := List.nodup_singleton _

def scoredRun : Component := ⟨js "run-1", isSome_encode_run⟩

/-- First `0`, then `-0`: the values are equal, and the row of `0` stays. -/
def signUpdates : List (Component × AttributeRecord) :=
  [(scoredRun, scoreRecord ⟨0⟩), (scoredRun, scoreRecord ⟨Float64.SIGN_BIT⟩)]

theorem sign_change_leaves_stale_row :
    RowsExact (noAttributes Unit) ∧
      ¬ (attributeMachine ()).EveryState RowsExact (noAttributes Unit) signUpdates ∧
      (((attributeMachine ()).final (noAttributes Unit) signUpdates).store.get
        (rowKey (js "score") scoredRun (.number ⟨0⟩))).isSome = true ∧
      ((attributeMachine ()).final (noAttributes Unit) signUpdates).store.get
        (rowKey (js "score") scoredRun (.number ⟨Float64.SIGN_BIT⟩)) = none ∧
      attributeRows scoredRun
          (((attributeMachine ()).final (noAttributes Unit) signUpdates).attributes scoredRun) =
        [rowKey (js "score") scoredRun (.number ⟨Float64.SIGN_BIT⟩)] := by
  refine ⟨noAttributes_exact, fun h => ?_, by decide, by decide, by decide⟩
  have hmissing : ((attributeMachine ()).final (noAttributes Unit) signUpdates).store.get
      (indexRow scoredRun (rowText (js "score") (.number ⟨Float64.SIGN_BIT⟩))) = none := by
    decide
  have hrow : indexRow scoredRun (rowText (js "score") (.number ⟨Float64.SIGN_BIT⟩)) ∈
      attributeRows scoredRun
        (((attributeMachine ()).final (noAttributes Unit) signUpdates).attributes scoredRun) := by
    decide
  have hsome := (h.final scoredRun _).2 hrow
  rw [hmissing] at hsome
  cases hsome

end Weft.Attributes
