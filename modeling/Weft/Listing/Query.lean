import Weft.Attributes.Value
import Weft.Visibility.Indexes

/-! List filters: what `normalizeListFilter` accepts, and which workflow states they match. -/

namespace Weft.Listing
open Weft.Js Weft.Storage Weft.Visibility Weft.Attributes

universe u

/-! ## Filters -/

/-- A field that takes one value or an array of them. -/
inductive OneOrMany (α : Type u) where
  | one (value : α)
  | many (values : List α)
deriving DecidableEq

def OneOrMany.toList {α : Type u} : OneOrMany α → List α
  | .one value => [value]
  | .many values => values

structure TimeRange where
  gte : Option JsNumber := none
  lte : Option JsNumber := none
  gt : Option JsNumber := none
  lt : Option JsNumber := none
deriving DecidableEq

structure AttributeFilter where
  key : JsString
  value : Option (OneOrMany Scalar) := none
  gt : Option Scalar := none
  lt : Option Scalar := none
  gte : Option Scalar := none
  lte : Option Scalar := none
deriving DecidableEq

structure ListFilter where
  status : Option (OneOrMany WorkflowStatus) := none
  type : Option JsString := none
  parentWorkflowId : Option JsString := none
  parentWorkflowExecutionToken : Option JsString := none
  tags : Option (List JsString) := none
  attributes : List AttributeFilter := []
  limit : Option Nat := none
  offset : Option Nat := none
  idPrefix : Option JsString := none
  createdAt : Option TimeRange := none
  updatedAt : Option TimeRange := none
  executionDeadline : Option TimeRange := none
deriving DecidableEq

/-! ## Validation -/

/-- `[A-Za-z0-9_-]`. -/
def isIdPrefixUnit (u : CodeUnit) : Bool :=
  (65 ≤ u.val && u.val ≤ 90) || (97 ≤ u.val && u.val ≤ 122) || (48 ≤ u.val && u.val ≤ 57) ||
    u.val = 95 || u.val = 45

def timeRangeSchema (range : TimeRange) : Bool :=
  (range.gte.isSome || range.gt.isSome || range.lte.isSome || range.lt.isSome) &&
    !(range.gte.isSome && range.gt.isSome) && !(range.lte.isSome && range.lt.isSome)

def listFilterObjectSchema (filter : ListFilter) : Bool :=
  filter.type.all (· ≠ []) &&
    filter.parentWorkflowId.all (· ≠ []) &&
    filter.parentWorkflowExecutionToken.all (· ≠ []) &&
    filter.limit.all (fun n => 1 ≤ n ∧ n ≤ 1000) &&
    filter.idPrefix.all (fun pre => pre ≠ [] ∧ pre.all isIdPrefixUnit) &&
    filter.createdAt.all timeRangeSchema && filter.updatedAt.all timeRangeSchema &&
    filter.executionDeadline.all timeRangeSchema

/-- `none` is the `ListFilterValidationError`. -/
def normalizeListFilter (filter : ListFilter) : Option ListFilter :=
  if listFilterObjectSchema filter = true ∧
      ¬ (filter.parentWorkflowExecutionToken.isSome ∧ filter.parentWorkflowId.isNone) then
    some filter
  else none

/-! ## Tags -/

/-- White space and line terminators, as `trim` strips them. -/
def isTrimmed (u : CodeUnit) : Bool :=
  (9 ≤ u.val && u.val ≤ 13) || (0x2000 ≤ u.val && u.val ≤ 0x200A) ||
    [0x20, 0xA0, 0x1680, 0x2028, 0x2029, 0x202F, 0x205F, 0x3000, 0xFEFF].contains u.val

def trim (s : JsString) : JsString :=
  ((s.dropWhile isTrimmed).reverse.dropWhile isTrimmed).reverse

/-- `localeLe` is the order of `localeCompare`, which depends on the host. -/
def normalizeWorkflowTags (localeLe : JsString → JsString → Bool)
    (tags : Option (List JsString)) : Option (List JsString) :=
  let normalized := toSet (((tags.getD []).map trim).filter (· ≠ []))
  if normalized = [] then none else some (normalized.mergeSort localeLe)

def matchesWorkflowTagFilter (workflowTags : Option (List Component))
    (filterTags : Option (List JsString)) : Bool :=
  (filterTags.getD []).all fun tag => tag ∈ ((workflowTags.getD []).map (·.text))

/-! ## Matching -/

def timestampInRange (value : JsNumber) (range : TimeRange) : Bool :=
  range.gte.all (fun b => ¬ value.value < b.value) &&
    range.gt.all (fun b => ¬ value.value ≤ b.value) &&
    range.lte.all (fun b => ¬ value.value > b.value) &&
    range.lt.all (fun b => ¬ value.value ≥ b.value)

def matchesListFilterStatus (state : WorkflowState) (filter : ListFilter) : Bool :=
  filter.status.all fun statuses => state.status ∈ statuses.toList

def matchesListFilterIdentity (state : WorkflowState) (filter : ListFilter) : Bool :=
  matchesListFilterStatus state filter &&
    filter.type.all (fun type => state.type.text = type) &&
    filter.parentWorkflowId.all (fun id => state.parentWorkflowId.map (·.text) = some id) &&
    filter.parentWorkflowExecutionToken.all
      (fun token => state.parentWorkflowExecutionToken.map (·.text) = some token) &&
    filter.idPrefix.all fun pre => pre.isPrefixOf state.id.text

def matchesListFilterTimeRanges (state : WorkflowState) (filter : ListFilter) : Bool :=
  filter.createdAt.all (timestampInRange state.createdAt) &&
    filter.updatedAt.all (timestampInRange state.updatedAt) &&
    filter.executionDeadline.all fun range =>
      state.executionDeadline.any fun deadline => timestampInRange deadline range

/-! ### Attributes -/

def attributeFilterExactValues (filter : AttributeFilter) : Option (List Scalar) :=
  filter.value.map OneOrMany.toList

def attributeValueMatchesAnyOf (actual : SearchAttributeValue) (expectedValues : List Scalar) :
    Bool :=
  (storedAttributeScalarValues actual).any fun actualValue =>
    expectedValues.any fun expectedValue => actualValue.equal expectedValue

def encodedAttributeValueSatisfiesRange (encodedValue : JsString) (filter : AttributeFilter) :
    Bool :=
  filter.gte.all (fun b => ¬ encodedValue < encodeAttributeValue b) &&
    filter.gt.all (fun b => ¬ encodedValue ≤ encodeAttributeValue b) &&
    filter.lte.all (fun b => ¬ encodedValue > encodeAttributeValue b) &&
    filter.lt.all (fun b => ¬ encodedValue ≥ encodeAttributeValue b)

def attributeValueMatchesRange (value : SearchAttributeValue) (filter : AttributeFilter) :
    Bool :=
  (storedAttributeScalarValues value).any fun scalarValue =>
    encodedAttributeValueSatisfiesRange (encodeAttributeValue scalarValue) filter

def matchesAttributeFilter (searchAttributes : AttributeRecord) (filter : AttributeFilter) :
    Bool :=
  (searchAttributes.get filter.key).any fun attributeValue =>
    match attributeFilterExactValues filter with
    | some exactValues => attributeValueMatchesAnyOf attributeValue exactValues
    | none => attributeValueMatchesRange attributeValue filter

def matchesListFilterAttributes (searchAttributes : Option AttributeRecord)
    (filter : ListFilter) : Bool :=
  filter.attributes = [] || searchAttributes.any fun attributes =>
    filter.attributes.all fun attributeFilter => matchesAttributeFilter attributes attributeFilter

def matchesListFilter (state : WorkflowState) (filter : Option ListFilter)
    (constrainedIds : Option (List JsString)) (normalizedTagFilters : Option (List JsString))
    (searchAttributes : Option AttributeRecord) : Bool :=
  constrainedIds.all (fun ids => state.id.text ∈ ids) &&
    matchesWorkflowTagFilter state.tags normalizedTagFilters &&
    filter.all fun filter =>
      matchesListFilterIdentity state filter && matchesListFilterTimeRanges state filter &&
        matchesListFilterAttributes searchAttributes filter

end Weft.Listing

/-! `list`: candidate identifiers from the indexes, one set for each dimension of the filter,
their intersection, and the page of matching workflows. Without a candidate set every
record is scanned. -/

namespace Weft.Listing
open Weft.Js Weft.Storage Weft.Visibility Weft.Attributes

universe u

inductive ListError where
  /-- `WorkflowListScanCapExceededError`. -/
  | scanCapExceeded
  /-- A string that `encodeURIComponent` refuses. -/
  | uriError
  /-- A record that does not decode to a workflow state. -/
  | invalidState
deriving DecidableEq, Repr

structure ListCodec (V : Type u) extends Codec V where
  decodeAttributes : V → Option AttributeRecord

inductive WorkflowVisibilityWatermark where
  | current
  | stale
deriving DecidableEq, Repr

def MAX_LIST_SCAN_ROWS : Nat := 1000000

def encodeStorageKeyComponent (s : JsString) : Except ListError JsString :=
  match encodeURIComponent s with
  | some e => .ok e
  | none => .error .uriError

variable {V : Type u}

/-! ## Visibility queries -/

def collectWorkflowIdsFromIndex (s : Store V) (pre : JsString) (options : ScanOptions) :
    List JsString :=
  toSet ((scan s pre options).filterMap fun row =>
    tryDecodeStorageKeyComponent (afterLastColon row.1))

def queryWorkflowStatusIndex (s : Store V) (statuses : List WorkflowStatus) : List JsString :=
  toSet (statuses.flatMap fun status =>
    collectWorkflowIdsFromIndex s (js "wf-idx-status:" ++ status.component.enc ++ [colon]) {})

def queryWorkflowTypeIndex (s : Store V) (type : JsString) : Except ListError (List JsString) := do
  let e ← encodeStorageKeyComponent type
  return collectWorkflowIdsFromIndex s (js "wf-idx-type:" ++ e ++ [colon]) {}

inductive TimeKind where
  | created
  | updated
  | deadline
deriving DecidableEq, Repr

def TimeKind.indexPrefix : TimeKind → JsString
  | .created => js "wf-idx-created:"
  | .updated => js "wf-idx-updated:"
  | .deadline => js "wf-idx-deadline:"

/-- Every number of the model is finite. -/
def isFinitePositive (value : JsNumber) : Bool := 0 ≤ value.mantissa

def sortableTimestamp (value : JsNumber) : JsString := padStart value.toJsString 16 (digitUnit 0)

def timeRangeScanOptions (kind : TimeKind) (range : TimeRange) : ScanOptions where
  gte := (range.gte.filter isFinitePositive).map fun b =>
    kind.indexPrefix ++ sortableTimestamp b ++ [colon]
  gt := (range.gt.filter isFinitePositive).map fun b =>
    kind.indexPrefix ++ sortableTimestamp b ++ [colon, 0xff]
  lte := (range.lte.filter isFinitePositive).map fun b =>
    kind.indexPrefix ++ sortableTimestamp b ++ [colon, 0xff]
  lt := (range.lt.filter isFinitePositive).map fun b =>
    kind.indexPrefix ++ sortableTimestamp b ++ [colon]

def queryWorkflowTimeRangeIndex (s : Store V) (kind : TimeKind) (range : TimeRange) :
    List JsString :=
  collectWorkflowIdsFromIndex s kind.indexPrefix (timeRangeScanOptions kind range)

def isTopLevelWorkflowStateKey (key : JsString) : Bool := !(key.drop 3).contains colon

def queryWorkflowIdPrefixCandidates (s : Store V) (idPrefix : JsString) :
    Except ListError (List JsString) := do
  let e ← encodeStorageKeyComponent idPrefix
  return toSet ((scan s (js "wf:" ++ e) {}).filterMap fun row =>
    if isTopLevelWorkflowStateKey row.1 then tryDecodeStorageKeyComponent (row.1.drop 3)
    else none)

/-! ## Lineage, tag and attribute queries -/

/-- Adds the workflow of one row, unless the set is full already. -/
def addChild (workflowIds : List JsString) (key : JsString) :
    Except ListError (List JsString) :=
  if workflowIds.length ≥ MAX_LIST_SCAN_ROWS then .error .scanCapExceeded
  else match tryDecodeStorageKeyComponent (afterLastColon key) with
    | some id => .ok (toSet (workflowIds ++ [id]))
    | none => .ok workflowIds

def queryChildWorkflowIndex (s : Store V) (parentWorkflowId : JsString)
    (parentWorkflowExecutionToken : Option JsString) : Except ListError (List JsString) := do
  let parent ← encodeStorageKeyComponent parentWorkflowId
  let token ← match parentWorkflowExecutionToken with
    | none => pure []
    | some token => (· ++ [colon]) <$> encodeStorageKeyComponent token
  ((scan s (js "child-by-parent:" ++ parent ++ [colon] ++ token) {}).map (·.1)).foldlM addChild []

def queryTagIndex (s : Store V) (tag : JsString) : Except ListError (List JsString) := do
  let e ← encodeStorageKeyComponent tag
  let pre := js "tag:" ++ e ++ [colon]
  return toSet ((scan s pre {}).filterMap fun row =>
    tryDecodeStorageKeyComponent (row.1.drop pre.length))

def attributeRangeScanOptions (filter : AttributeFilter) : ScanOptions where
  gte := filter.gte.map fun b =>
    js "idx:" ++ filter.key ++ [colon] ++ encodeAttributeValue b ++ [colon]
  gt := filter.gt.map fun b =>
    js "idx:" ++ filter.key ++ [colon] ++ encodeAttributeValue b ++ [colon, 0xff]
  lte := filter.lte.map fun b =>
    js "idx:" ++ filter.key ++ [colon] ++ encodeAttributeValue b ++ [colon, 0xff]
  lt := filter.lt.map fun b =>
    js "idx:" ++ filter.key ++ [colon] ++ encodeAttributeValue b ++ [colon]

def collectExactAttributeMatches (s : Store V) (attributeName : JsString)
    (values : List Scalar) : List JsString :=
  values.flatMap fun value =>
    let exactPrefix := js "idx:" ++ attributeName ++ [colon] ++ encodeAttributeValue value ++
      [colon]
    (scan s exactPrefix {}).filterMap fun row =>
      tryDecodeStorageKeyComponent (row.1.drop exactPrefix.length)

def collectRangeAttributeMatches (s : Store V) (filter : AttributeFilter) : List JsString :=
  let pre := js "idx:" ++ filter.key ++ [colon]
  (scan s pre (attributeRangeScanOptions filter)).filterMap fun row =>
    let afterPrefix := row.1.drop pre.length
    if afterPrefix.contains colon then
      tryDecodeStorageKeyComponent (afterLastColon afterPrefix)
    else none

def queryAttributeIndex (s : Store V) (filter : AttributeFilter) : List JsString :=
  toSet (match attributeFilterExactValues filter with
    | some values => collectExactAttributeMatches s filter.key values
    | none => collectRangeAttributeMatches s filter)

/-! ## Candidates -/

/-- `null` for no sets at all. -/
def intersectIdentifierSets : List (List JsString) → Option (List JsString)
  | [] => none
  | firstSet :: remainingSets =>
    some (remainingSets.foldl (fun ids next => ids.filter (· ∈ next)) firstSet)

def constrainedIdQueries (s : Store V) (filter : ListFilter)
    (normalizedTagFilters : Option (List JsString)) : List (Except ListError (List JsString)) :=
  (filter.parentWorkflowId.toList.map fun id =>
      queryChildWorkflowIndex s id filter.parentWorkflowExecutionToken) ++
    (normalizedTagFilters.getD []).map (queryTagIndex s) ++
    filter.attributes.map fun attributeFilter => .ok (queryAttributeIndex s attributeFilter)

def idPrefixQueries (s : Store V) (filter : ListFilter) :
    List (Except ListError (List JsString)) :=
  filter.idPrefix.toList.map (queryWorkflowIdPrefixCandidates s)

def visibilityQueries (s : Store V) (filter : ListFilter) :
    List (Except ListError (List JsString)) :=
  (filter.status.toList.map fun statuses =>
    Except.ok (queryWorkflowStatusIndex s statuses.toList)) ++
    filter.type.toList.map (queryWorkflowTypeIndex s) ++
    (filter.createdAt.toList.map fun range =>
      Except.ok (queryWorkflowTimeRangeIndex s .created range)) ++
    (filter.updatedAt.toList.map fun range =>
      Except.ok (queryWorkflowTimeRangeIndex s .updated range)) ++
    (filter.executionDeadline.toList.map fun range =>
      Except.ok (queryWorkflowTimeRangeIndex s .deadline range)) ++
    idPrefixQueries s filter

/-- Every query of the filter: those that need a current watermark only if it is. -/
def candidateQueries (s : Store V) (watermark : WorkflowVisibilityWatermark)
    (filter : ListFilter) (normalizedTagFilters : Option (List JsString)) :
    List (Except ListError (List JsString)) :=
  constrainedIdQueries s filter normalizedTagFilters ++
    match watermark with
    | .stale => idPrefixQueries s filter
    | .current => visibilityQueries s filter

def resolveListCandidateIds (s : Store V) (watermark : WorkflowVisibilityWatermark)
    (filter : Option ListFilter) (normalizedTagFilters : Option (List JsString)) :
    Except ListError (Option (List JsString)) := do
  let queries := (filter.map fun filter =>
    candidateQueries s watermark filter normalizedTagFilters).getD []
  let sets ← queries.mapM id
  return intersectIdentifierSets sets

/-! ## Collecting -/

variable (codec : ListCodec V)

def attributesOf (s : Store V) (id : Component) : Option AttributeRecord :=
  (s.get (KEYS.attributes id)).bind codec.decodeAttributes

def decodeWorkflowState (value : V) : Except ListError WorkflowState :=
  match codec.decodeState value with
  | some state => .ok state
  | none => .error .invalidState

/-- The states of the candidates, as far as they are still there. -/
def loadCandidate (s : Store V) (id : JsString) : Except ListError (Option WorkflowState) := do
  let e ← encodeStorageKeyComponent id
  match s.get (js "wf:" ++ e) with
  | none => return none
  | some value => some <$> decodeWorkflowState codec value

def collectFromConstrainedIds (s : Store V) (constrainedIds : List JsString)
    (filter : Option ListFilter) (normalizedTagFilters : Option (List JsString)) :
    Except ListError (List WorkflowState) := do
  if constrainedIds.length > MAX_LIST_SCAN_ROWS then throw .scanCapExceeded
  let states ← constrainedIds.mapM (loadCandidate codec s)
  return (states.filterMap id).filter fun state =>
    matchesListFilter state filter (some constrainedIds) normalizedTagFilters
      (attributesOf codec s state.id)

def collectFromFullScan (s : Store V) (filter : Option ListFilter)
    (normalizedTagFilters : Option (List JsString)) : Except ListError (List WorkflowState) := do
  let rows := (scan s (js "wf:") {}).filter fun row => isTopLevelWorkflowStateKey row.1
  let states ← (rows.take MAX_LIST_SCAN_ROWS).mapM fun row => decodeWorkflowState codec row.2
  if rows.length > MAX_LIST_SCAN_ROWS then throw .scanCapExceeded
  return states.filter fun state =>
    matchesListFilter state filter none normalizedTagFilters (attributesOf codec s state.id)

/-! ## Pages -/

structure WorkflowSummary where
  id : Component
  type : Component
  status : WorkflowStatus
  tags : Option (List Component)
  version : JsString
  createdAt : JsNumber
  updatedAt : JsNumber
  executionDeadline : Option JsNumber
deriving DecidableEq

structure PaginatedResult where
  items : List WorkflowSummary
  total : Nat
  offset : Nat
  limit : Nat
deriving DecidableEq

def summaryFromState (state : WorkflowState) : WorkflowSummary where
  id := state.id
  type := state.type
  status := state.status
  tags := state.tags
  version := state.workflowVersion
  createdAt := state.createdAt
  updatedAt := state.updatedAt
  executionDeadline := state.executionDeadline

/-- `createdAt` descending, then `id` ascending. -/
def listedBefore (left right : WorkflowSummary) : Bool :=
  if left.createdAt.value ≠ right.createdAt.value then
    right.createdAt.value ≤ left.createdAt.value
  else left.id.text ≤ right.id.text

def sortSummariesByCreatedAtDescending (items : List WorkflowSummary) : List WorkflowSummary :=
  items.mergeSort listedBefore

def paginateWorkflowSummaries (items : List WorkflowSummary) (filter : Option ListFilter) :
    PaginatedResult :=
  let offset := (filter.bind (·.offset)).getD 0
  let limit := (filter.bind (·.limit)).getD items.length
  { items := (items.drop offset).take limit
    total := items.length
    offset := offset
    limit := limit }

def page (states : List WorkflowState) (filter : Option ListFilter) : PaginatedResult :=
  paginateWorkflowSummaries
    (sortSummariesByCreatedAtDescending (states.map summaryFromState)) filter

/-- `list` on a filter that has been accepted. -/
def list (localeLe : JsString → JsString → Bool) (s : Store V)
    (watermark : WorkflowVisibilityWatermark) (filter : Option ListFilter) :
    Except ListError PaginatedResult := do
  let normalizedTagFilters := normalizeWorkflowTags localeLe (filter.bind (·.tags))
  let constrainedIds ← resolveListCandidateIds s watermark filter normalizedTagFilters
  let states ← match constrainedIds with
    | some ids => collectFromConstrainedIds codec s ids filter normalizedTagFilters
    | none => collectFromFullScan codec s filter normalizedTagFilters
  return page states filter

/-- The page of a full scan, whatever the indexes hold. -/
def fullScanList (localeLe : JsString → JsString → Bool) (s : Store V)
    (filter : Option ListFilter) : Except ListError PaginatedResult := do
  let normalizedTagFilters := normalizeWorkflowTags localeLe (filter.bind (·.tags))
  let states ← collectFromFullScan codec s filter normalizedTagFilters
  return page states filter

end Weft.Listing
