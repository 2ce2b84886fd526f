import Weft.Storage.Layout

/-! Two applications have one key only where a text that is not encoded reaches over its colon, and
a prefix that is scanned for one workflow begins no key of another. -/

namespace Weft.Storage
open Weft.Js Weft.Attributes

/-! ## Reading a key -/

def component (field : JsString) : Option Component :=
  (decodeURIComponent field).bind Component.of?

@[simp] theorem component_enc (c : Component) : component c.enc = some c := by
  rw [component, c.decode_enc, Option.bind_some, c.of?_text]

def padded (width : Nat) (field : JsString) : Option (Padded width) :=
  if h : numeralValue field < 10 ^ width then some ⟨numeralValue field, h⟩ else none

@[simp] theorem padded_paddedNat {width : Nat} (n : Padded width) :
    padded width (paddedNat width n.val) = some n := by
  simp only [padded, numeralValue_paddedNat, n.isLt, dif_pos]

def join (fields : List JsString) : JsString := [colon].intercalate fields

@[simp] theorem join_fields_eq (x : JsString) : join (fields x) = x := join_fields x

def TaskFamily.all : List TaskFamily :=
  [.operationInflight, .operationQueued, .operationResolved, .operationDeadLetter]

def TaskFamily.ofWord (word : JsString) : Option TaskFamily :=
  TaskFamily.all.find? fun family => family.word = word

@[simp] theorem TaskFamily.ofWord_word (family : TaskFamily) :
    ofWord family.word = some family := by
  cases family <;> decide

theorem TaskFamily.ofWord_resolvedByTime : ofWord (js "resolved-by-time") = none := by decide

/-- The application whose key has the fields. -/
def Shape.parse : Shape → List JsString → Option Application
  | .own family, [id] => do return .own family (← component id)
  | .timed family, [time, id] => do return .timed family (← padded 16 time) (← component id)
  | .pair family, [first, second] => do
    return .pair family (← component first) (← component second)
  | .raw family, workflowId :: text => do return .raw family (← component workflowId) (join text)
  | .record, [id] => do return .workflow (← component id)
  | .record, [id, _] => do return .checkpoint (← component id)
  | .record, [id, word, step] => do
    if word = js "ckpt" then return .checkpointHistory (← component id) (← padded 10 step)
    else return .timeline (← component id) (← padded 10 step)
  | .operation, word :: more =>
    match TaskFamily.ofWord word, more with
    | some family, _ => some (.task family (join more))
    | none, [resolvedAt, id] => do
      return .operationResolvedByTime (← padded 16 resolvedAt) (← component id)
    | none, _ => none
  | .asyncActivity, [_, workflowId, token] => do
    return .asyncActivity (← component workflowId) (← component token)
  | .asyncActivity, [_, workflowId, token, _] => do
    return .asyncActivityResolution (← component workflowId) (← component token)
  | .activityReconciliation, _ :: workflowId :: activityName :: digest => do
    return .activityReconciliation (← component workflowId) (← component activityName) (join digest)
  | .event, [workflowId, text] => do
    if text = js "head" then return .eventHead (← component workflowId)
    else if text = js "watermark" then return .eventWatermark (← component workflowId)
    else return .event (← component workflowId) (← padded 10 text)
  | .fleetEvent, [workflowId, sequence] => do
    return .fleetEventByWorkflow (← component workflowId) (← padded 10 sequence)
  | .signal, [workflowId, name, sortClass, id] => do
    if sortClass = js "0" then
      return .startSignal (← component workflowId) (← component name) (← component id)
    else return .signal (← component workflowId) (← component name) (← component id)
  | .signalSequence, [_, workflowId] => do return .signalSequence (← component workflowId)
  | .signalAcceptedResponse, [_, workflowId, name, signalId] => do
    return .signalAcceptedResponse (← component workflowId) (← component name)
      (← component signalId)
  | .childWorkflowByParent, [parentWorkflowId, childWorkflowId] => do
    return .childWorkflowByParent (← component parentWorkflowId) none (← component childWorkflowId)
  | .childWorkflowByParent, [parentWorkflowId, token, childWorkflowId] => do
    return .childWorkflowByParent (← component parentWorkflowId) (some (← component token))
      (← component childWorkflowId)
  | .state, [_, ownerWorkflowId, key] => do
    return .stateExecution (← component ownerWorkflowId) (← component key)
  | .stream, workflowId :: more =>
    match more.reverse with
    | last :: key => do
      if last = js "tail" then return .streamTail (← component workflowId) (join key.reverse)
      else if last = js "meta" then
        return .streamMetadata (← component workflowId) (join key.reverse)
      else
        return .streamChunk (← component workflowId) (join key.tail.reverse) (← padded 10 last)
    | [] => none
  | .budgetCharged, operationId => some (.budgetCharged (join operationId))
  | _, _ => none

/-- No text that is not encoded stands in front of another argument. -/
def Application.isClosed : Application → Bool
  | .operation _ _ _ | .attributeIndex _ _ _ | .toolEffect _ _ _ => false
  | _ => true

theorem paddedNat_ne (word : JsString) (h : word.all isDigitUnit = false) (w n : Nat) :
    paddedNat w n ≠ word := by
  rintro rfl
  obtain ⟨u, hu, hdigit⟩ := List.all_eq_false.1 h
  obtain ⟨d, hd, rfl⟩ := mem_paddedNat hu
  have hall : ∀ m : Fin 10, isDigitUnit (digitUnit m.val) = true := by decide
  exact hdigit (hall ⟨d, hd⟩)

/-- The fields of a key give its application back. -/
theorem parse_rest {a : Application} (h : a.isClosed) : a.shape.parse a.rest = some a := by
  cases a with
  | operation | attributeIndex | toolEffect => cases h
  | own | timed | pair | raw | workflow | checkpoint | asyncActivity | asyncActivityResolution |
    activityReconciliation | fleetEventByWorkflow | signalSequence | signalAcceptedResponse |
    stateExecution | budgetCharged | task =>
    simp [Application.shape, Application.rest, Shape.parse]
  | checkpointHistory | signal | startSignal =>
    simp [Application.shape, Application.rest, Shape.parse,
      show js "1" ≠ js "0" by decide]
  | timeline =>
    simp [Application.shape, Application.rest, Shape.parse,
      show js "timeline" ≠ js "ckpt" by decide]
  | operationResolvedByTime =>
    simp [Application.shape, Application.rest, Shape.parse, TaskFamily.ofWord_resolvedByTime]
  | event workflowId sequence =>
    have hhead := paddedNat_ne (js "head") (by decide) 10 sequence.val
    have hwatermark := paddedNat_ne (js "watermark") (by decide) 10 sequence.val
    simp [Application.shape, Application.rest, Shape.parse, hhead, hwatermark]
  | eventHead => simp [Application.shape, Application.rest, Shape.parse]
  | eventWatermark =>
    simp [Application.shape, Application.rest, Shape.parse,
      show js "watermark" ≠ js "head" by decide]
  | childWorkflowByParent _ token _ =>
    cases token <;> simp [Application.shape, Application.rest, Shape.parse]
  | streamChunk workflowId key chunkIndex =>
    have htail := paddedNat_ne (js "tail") (by decide) 10 chunkIndex.val
    have hmeta := paddedNat_ne (js "meta") (by decide) 10 chunkIndex.val
    simp [Application.shape, Application.rest, Shape.parse, htail, hmeta]
  | streamTail => simp [Application.shape, Application.rest, Shape.parse]
  | streamMetadata =>
    simp [Application.shape, Application.rest, Shape.parse, show js "meta" ≠ js "tail" by decide]

variable {a b : Application}

theorem shape_eq_of_key_eq (h : a.key = b.key) : a.shape = b.shape ∧ a.rest = b.rest := by
  have hfields := congrArg fields h
  rw [fields_key, fields_key] at hfields
  obtain ⟨hword, hrest⟩ := List.cons.inj hfields
  exact ⟨Shape.word_injective hword, hrest⟩

theorem eq_of_key_eq (ha : a.isClosed) (hb : b.isClosed) (h : a.key = b.key) : a = b := by
  obtain ⟨hshape, hrest⟩ := shape_eq_of_key_eq h
  have hparse := parse_rest ha
  rw [hshape, hrest, parse_rest hb] at hparse
  exact (Option.some.inj hparse).symm

/-! ## Where a text reaches over its colon -/

/-- Two texts with colons between them, in front of one text. -/
theorem overlap_cases {x y x' y' : JsString} (h : x ++ colon :: y = x' ++ colon :: y') :
    x = x' ∧ y = y' ∨ (∃ m, x' = x ++ colon :: m ∧ y = m ++ colon :: y') ∨
      ∃ m, x = x' ++ colon :: m ∧ y' = m ++ colon :: y := by
  rcases List.append_eq_append_iff.1 h with ⟨c, rfl, hc⟩ | ⟨c, rfl, hc⟩
  · cases c with
    | nil => exact .inl ⟨by simp, by simpa using hc⟩
    | cons u m =>
      obtain ⟨rfl, hy⟩ := List.cons.inj hc
      exact .inr (.inl ⟨m, rfl, hy⟩)
  · cases c with
    | nil => exact .inl ⟨by simp, by simpa using hc.symm⟩
    | cons u m =>
      obtain ⟨rfl, hy⟩ := List.cons.inj hc
      exact .inr (.inr ⟨m, rfl, hy⟩)

/-- The text of the first application reaches into the second: the queue of a task key with the
timestamp or the literal of another, the name of an attribute with the value of another, the agent
with the hash of another. -/
def Overlaps : Application → Application → Prop
  | .operation queue scheduledAt id, .operation queue' scheduledAt' id' =>
    ∃ m, queue' = queue ++ colon :: paddedNat 16 scheduledAt.val ++ m ∧
      colon :: id = m ++ colon :: paddedNat 16 scheduledAt'.val ++ colon :: id'
  | .operation queue scheduledAt id, .task family id' =>
    ∃ m, queue = family.word ++ m ∧
      colon :: id' = m ++ colon :: paddedNat 16 scheduledAt.val ++ colon :: id
  | .operation queue scheduledAt id, .operationResolvedByTime resolvedAt id' =>
    queue = js "resolved-by-time" ∧ scheduledAt = resolvedAt ∧ id = id'.enc
  | .attributeIndex attributeName encodedValue workflowId,
      .attributeIndex attributeName' encodedValue' workflowId' =>
    workflowId = workflowId' ∧
      ∃ m, attributeName' = attributeName ++ colon :: m ∧
        encodedValue.1 = m ++ colon :: encodedValue'.1
  | .toolEffect workflowId agentId semanticHash, .toolEffect workflowId' agentId' semanticHash' =>
    workflowId = workflowId' ∧
      ∃ m, agentId' = agentId ++ colon :: m ∧ semanticHash = m ++ colon :: semanticHash'
  | _, _ => False

/-! ### Cancelling at a colon -/

variable {x x' y y' : JsString}

theorem closed_cancel (hx : colon ∉ x) (hx' : colon ∉ x')
    (h : x ++ colon :: y = x' ++ colon :: y') : x = x' ∧ y = y' := by
  rcases overlap_cases h with heq | ⟨m, rfl, -⟩ | ⟨m, rfl, -⟩
  · exact heq
  · exact absurd (by simp) hx'
  · exact absurd (by simp) hx

theorem last_cancel (hy : colon ∉ y) (hy' : colon ∉ y') (h : x ++ colon :: y = x' ++ colon :: y') :
    x = x' ∧ y = y' := by
  rcases overlap_cases h with heq | ⟨m, -, rfl⟩ | ⟨m, -, rfl⟩
  · exact heq
  · exact absurd (by simp) hy
  · exact absurd (by simp) hy'

theorem ne_of_append_cons {x m : JsString} (u : CodeUnit) : x ++ u :: m ≠ x := by
  intro h
  have := congrArg List.length h
  simp at this

theorem padded_cancel {width : Nat} {n n' : Padded width} {y y' : JsString}
    (h : paddedNat width n.val ++ colon :: y = paddedNat width n'.val ++ colon :: y') :
    n = n' ∧ y = y' := by
  obtain ⟨hn, hy⟩ := closed_cancel (colon_notMem_paddedNat _ _) (colon_notMem_paddedNat _ _) h
  exact ⟨Fin.ext (paddedNat_inj hn), hy⟩

/-! ### Task keys -/

theorem operation_key (queue id : JsString) (time : Padded 16) :
    (Application.operation queue time id).key =
      js "op:" ++ (queue ++ colon :: (paddedNat 16 time.val ++ colon :: id)) := by
  simp only [Application.key, KEYS.operation, List.append_assoc, List.cons_append]

variable {time time' : Padded 16}

theorem operation_overlap {queue queue' id id' : JsString}
    (h : (Application.operation queue time id).key = (Application.operation queue' time' id').key) :
    Application.operation queue time id = .operation queue' time' id' ∨
      Overlaps (.operation queue time id) (.operation queue' time' id') ∨
      Overlaps (.operation queue' time' id') (.operation queue time id) := by
  -- the longer queue ends after the timestamp of the shorter one
  have hreach : ∀ {q q' i i' m : JsString} {t t' : Padded 16},
      q' = q ++ colon :: m → paddedNat 16 t.val ++ colon :: i =
        m ++ colon :: (paddedNat 16 t'.val ++ colon :: i') →
      Overlaps (.operation q t i) (.operation q' t' i') := by
    intro q q' i i' m t t' hq htail
    rcases overlap_cases htail with ⟨rfl, rfl⟩ | ⟨m', rfl, rfl⟩ | ⟨m', ht, -⟩
    · exact ⟨[], by simp [hq], by simp⟩
    · exact ⟨colon :: m', by simp [hq], by simp⟩
    · exact absurd (ht ▸ by simp) (colon_notMem_paddedNat 16 t.val)
  rw [operation_key, operation_key] at h
  rcases overlap_cases (List.append_cancel_left h) with ⟨rfl, htail⟩ | ⟨m, hq, htail⟩ | ⟨m, hq,
    htail⟩
  · obtain ⟨rfl, rfl⟩ := padded_cancel htail
    exact .inl rfl
  · exact .inr (.inl (hreach hq htail))
  · exact .inr (.inr (hreach hq htail))

theorem task_overlap {queue id id' : JsString} {time : Padded 16} {family : TaskFamily}
    (h : (Application.operation queue time id).key = (Application.task family id').key) :
    Overlaps (.operation queue time id) (.task family id') := by
  rw [operation_key, Application.key, family.key_eq] at h
  rcases overlap_cases (List.append_cancel_left h) with ⟨rfl, rfl⟩ | ⟨m, hq, -⟩ | ⟨m, hq, rfl⟩
  · exact ⟨[], by simp, by simp⟩
  · exact absurd (hq ▸ by simp) family.colon_notMem
  · exact ⟨colon :: m, hq, by simp⟩

theorem resolvedByTime_overlap {queue id : JsString} {id' : Component}
    (h : (Application.operation queue time id).key =
      (Application.operationResolvedByTime time' id').key) :
    Overlaps (.operation queue time id) (.operationResolvedByTime time' id') := by
  have hword : colon ∉ js "resolved-by-time" := by decide
  rw [operation_key] at h
  simp only [Application.key, KEYS.operationResolvedByTime, resolvedByTime_text,
    List.append_assoc, List.cons_append, List.nil_append] at h
  rcases overlap_cases (List.append_cancel_left h) with ⟨rfl, htail⟩ | ⟨m, hq, -⟩ | ⟨m, -, htail⟩
  · obtain ⟨rfl, rfl⟩ := padded_cancel htail
    exact ⟨rfl, rfl, rfl⟩
  · exact absurd (hq ▸ by simp) hword
  · rcases overlap_cases htail with ⟨-, hid⟩ | ⟨m', -, hid⟩ | ⟨m', ht, -⟩
    · exact absurd (hid ▸ by simp) id'.colon_notMem
    · exact absurd (hid ▸ by simp) id'.colon_notMem
    · exact absurd (ht ▸ by simp) (colon_notMem_paddedNat 16 time'.val)

/-! ### Index rows and tool effects -/

theorem attributeIndex_overlap {name name' : JsString} {value value' : EncodedValue}
    {id id' : Component} (h : (Application.attributeIndex name value id).key =
      (Application.attributeIndex name' value' id').key) :
    Application.attributeIndex name value id = .attributeIndex name' value' id' ∨
      Overlaps (.attributeIndex name value id) (.attributeIndex name' value' id') ∨
      Overlaps (.attributeIndex name' value' id') (.attributeIndex name value id) := by
  obtain ⟨hrow, hid⟩ := last_cancel id.colon_notMem id'.colon_notMem h
  obtain rfl := Component.enc_injective hid
  rw [List.append_assoc, List.append_assoc] at hrow
  rcases overlap_cases (List.append_cancel_left hrow) with ⟨rfl, hv⟩ | ⟨m, hn, hv⟩ | ⟨m, hn, hv⟩
  · obtain rfl := Subtype.ext hv
    exact .inl rfl
  · exact .inr (.inl ⟨rfl, m, hn, hv⟩)
  · exact .inr (.inr ⟨rfl, m, hn, hv⟩)

theorem toolEffect_overlap {agent agent' hash hash' : JsString} {id id' : Component}
    (h : (Application.toolEffect id agent hash).key =
      (Application.toolEffect id' agent' hash').key) :
    Application.toolEffect id agent hash = .toolEffect id' agent' hash' ∨
      Overlaps (.toolEffect id agent hash) (.toolEffect id' agent' hash') ∨
      Overlaps (.toolEffect id' agent' hash') (.toolEffect id agent hash) := by
  simp only [Application.key, KEYS.toolEffect, List.append_assoc, List.cons_append] at h
  obtain ⟨hid, htail⟩ := closed_cancel id.colon_notMem id'.colon_notMem (List.append_cancel_left h)
  obtain rfl := Component.enc_injective hid
  rcases overlap_cases htail with ⟨rfl, rfl⟩ | ⟨m, ha, hh⟩ | ⟨m, ha, hh⟩
  · exact .inl rfl
  · exact .inr (.inl ⟨rfl, m, ha, hh⟩)
  · exact .inr (.inr ⟨rfl, m, ha, hh⟩)

/-! ## The registry -/

theorem overlap_of_open (ha : a.isClosed = false) (h : a.key = b.key) :
    a = b ∨ Overlaps a b ∨ Overlaps b a := by
  have hshape := (shape_eq_of_key_eq h).1
  cases a with
  | operation queue time id =>
    cases b with
    | operation => exact operation_overlap h
    | task => exact .inr (.inl (task_overlap h))
    | operationResolvedByTime => exact .inr (.inl (resolvedByTime_overlap h))
    | _ => simp [Application.shape] at hshape
  | attributeIndex name value id =>
    cases b with
    | attributeIndex => exact attributeIndex_overlap h
    | _ => simp [Application.shape] at hshape
  | toolEffect id agent hash =>
    cases b with
    | toolEffect => exact toolEffect_overlap h
    | _ => simp [Application.shape] at hshape
  | _ => cases ha

theorem Overlaps.key_eq (h : Overlaps a b) : a.key = b.key ∧ a ≠ b := by
  unfold Overlaps at h
  split at h
  case h_1 queue time id queue' time' id' =>
    obtain ⟨m, hq, hid⟩ := h
    constructor
    · rw [operation_key, operation_key, hq, hid]
      simp
    · rintro heq
      obtain ⟨hqueue, -, -⟩ := Application.operation.inj heq
      rw [hqueue, List.append_assoc] at hq
      exact ne_of_append_cons colon hq.symm
  case h_2 queue time id family id' =>
    obtain ⟨m, hq, hid⟩ := h
    refine ⟨?_, fun heq => by cases heq⟩
    rw [operation_key, Application.key, family.key_eq, hq, hid]
    simp [Shape.literal]
  case h_3 queue time id time' id' =>
    obtain ⟨rfl, rfl, rfl⟩ := h
    refine ⟨?_, fun heq => by cases heq⟩
    rw [operation_key]
    simp only [Application.key, KEYS.operationResolvedByTime, resolvedByTime_text,
      List.append_assoc, List.cons_append, List.nil_append]
  case h_4 name value id name' value' id' =>
    obtain ⟨rfl, m, hn, hv⟩ := h
    constructor
    · simp only [Application.key, KEYS.attributeIndex, hn, hv, List.append_assoc, List.cons_append]
    · rintro heq
      obtain ⟨hname, -, -⟩ := Application.attributeIndex.inj heq
      rw [hname] at hn
      exact ne_of_append_cons colon hn.symm
  case h_5 id agent hash id' agent' hash' =>
    obtain ⟨rfl, m, ha, hh⟩ := h
    constructor
    · simp only [Application.key, KEYS.toolEffect, ha, hh, List.append_assoc, List.cons_append]
    · rintro heq
      obtain ⟨-, hagent, -⟩ := Application.toolEffect.inj heq
      rw [hagent] at ha
      exact ne_of_append_cons colon ha.symm
  case h_6 => exact h.elim

theorem key_injective_iff (a b : Application) :
    (a.key = b.key → a = b) ↔ ¬ (Overlaps a b ∨ Overlaps b a) := by
  constructor
  · rintro h (hab | hba)
    · exact hab.key_eq.2 (h hab.key_eq.1)
    · exact hba.key_eq.2 (h hba.key_eq.1.symm).symm
  · intro hno hkey
    by_contra hne
    cases ha : a.isClosed with
    | false => exact ((overlap_of_open ha hkey).resolve_left hne |> hno)
    | true =>
      cases hb : b.isClosed with
      | false =>
        exact hno ((overlap_of_open hb hkey.symm).resolve_left (Ne.symm hne)).symm
      | true => exact hne (eq_of_key_eq ha hb hkey)

/-! ## Scans -/

/-- Families that are scanned for one workflow. -/
inductive ScanFamily where
  | events | fleetEvents | signals | acceptedSignals | updates | reconciliation | asyncActivities
  | childCancellations | timeline
deriving DecidableEq

def ScanFamily.scanPrefix : ScanFamily → Component → JsString
  | .events => KEYS.eventPrefix
  | .fleetEvents => KEYS.fleetEventByWorkflowPrefix
  | .signals => KEYS.signalPrefix
  | .acceptedSignals => KEYS.signalAcceptedResponsePrefix
  | .updates => KEYS.updatePrefix
  | .reconciliation => KEYS.activityReconciliationPrefix
  | .asyncActivities => KEYS.asyncActivityWorkflowPrefix
  | .childCancellations => KEYS.childCancellationPrefix
  | .timeline => KEYS.timelinePrefix

/-- The workflow of a key of the family. -/
def ScanFamily.owner : ScanFamily → Application → Option Component
  | .events, .event workflowId _ => some workflowId
  | .events, .eventHead workflowId => some workflowId
  | .events, .eventWatermark workflowId => some workflowId
  | .fleetEvents, .fleetEventByWorkflow workflowId _ => some workflowId
  | .signals, .signal workflowId _ _ => some workflowId
  | .signals, .startSignal workflowId _ _ => some workflowId
  | .acceptedSignals, .signalAcceptedResponse workflowId _ _ => some workflowId
  | .updates, .raw .update workflowId _ => some workflowId
  | .reconciliation, .activityReconciliation workflowId _ _ => some workflowId
  | .asyncActivities, .asyncActivity workflowId _ => some workflowId
  | .asyncActivities, .asyncActivityResolution workflowId _ => some workflowId
  | .childCancellations, .pair .childCancellation workflowId _ => some workflowId
  | .timeline, .timeline workflowId _ => some workflowId
  | _, _ => none

namespace ScanFamily

def shape : ScanFamily → Shape
  | .events => .event
  | .fleetEvents => .fleetEvent
  | .signals => .signal
  | .acceptedSignals => .signalAcceptedResponse
  | .updates => .raw .update
  | .reconciliation => .activityReconciliation
  | .asyncActivities => .asyncActivity
  | .childCancellations => .pair .childCancellation
  | .timeline => .record

/-- The fields between the word and the workflow. -/
def lead : ScanFamily → List JsString
  | .acceptedSignals | .reconciliation | .asyncActivities => [js "v1"]
  | _ => []

/-- The fields after the workflow. -/
def trail : ScanFamily → List JsString
  | .timeline => [js "timeline"]
  | _ => []

theorem fields_scanPrefix (family : ScanFamily) (workflowId : Component) (text : JsString) :
    fields (family.scanPrefix workflowId ++ text) = family.shape.word ::
        (family.lead ++ workflowId.enc :: (family.trail ++ fields text)) := by
  obtain ⟨-, htimeline, hv1, -⟩ := inner_closed
  have hplain : ∀ s : Shape, fields (s.literal ++ workflowId.enc ++ [colon] ++ text) =
      s.word :: workflowId.enc :: fields text := by
    intro s
    rw [List.append_assoc, List.append_assoc, fields_literal]
    exact congrArg _ (fields_enc_append workflowId text)
  have hversion : ∀ s : Shape, fields (s.literal ++ (js "v1" ++ [colon]) ++ workflowId.enc ++
      [colon] ++ text) = s.word :: js "v1" :: workflowId.enc :: fields text := by
    intro s
    rw [List.append_assoc, List.append_assoc, List.append_assoc, fields_literal, List.append_assoc]
    exact congrArg _ ((fields_closed_append hv1 _).trans
      (congrArg _ (fields_enc_append workflowId text)))
  cases family with
  | events => exact hplain .event
  | fleetEvents => exact hplain .fleetEvent
  | signals => exact hplain .signal
  | updates => exact hplain (.raw .update)
  | childCancellations => exact hplain (.pair .childCancellation)
  | acceptedSignals =>
    rw [scanPrefix, KEYS.signalAcceptedResponsePrefix, version_text.2.2.2]
    exact hversion .signalAcceptedResponse
  | reconciliation =>
    rw [scanPrefix, KEYS.activityReconciliationPrefix, version_text.2.1]
    exact hversion .activityReconciliation
  | asyncActivities =>
    rw [scanPrefix, KEYS.asyncActivityWorkflowPrefix, version_text.1]
    exact hversion .asyncActivity
  | timeline =>
    simp only [scanPrefix, KEYS.timelinePrefix, timeline_text, List.append_assoc, List.cons_append,
      List.nil_append]
    refine (fields_literal .record _).trans ?_
    rw [fields_enc_append, fields_closed_append htimeline]
    rfl

theorem owner_of_prefix {family : ScanFamily} {workflowId : Component} {a : Application}
    (h : family.scanPrefix workflowId <+: a.key) : family.owner a = some workflowId := by
  obtain ⟨text, htext⟩ := h
  have hfields := congrArg fields htext
  rw [fields_scanPrefix, fields_key] at hfields
  obtain ⟨hword, hrest⟩ := List.cons.inj hfields
  have hshape := Shape.word_injective hword
  have hsame : ∀ {id : Component} {x y : List JsString}, workflowId.enc :: x = id.enc :: y →
      some id = some workflowId :=
    fun heq => congrArg some (Component.enc_injective (List.cons.inj heq).1).symm
  cases family with
  | events =>
    cases a with
    | event | eventHead | eventWatermark => exact hsame hrest
    | _ => simp [shape, Application.shape] at hshape
  | fleetEvents =>
    cases a with
    | fleetEventByWorkflow => exact hsame hrest
    | _ => simp [shape, Application.shape] at hshape
  | signals =>
    cases a with
    | signal | startSignal => exact hsame hrest
    | _ => simp [shape, Application.shape] at hshape
  | acceptedSignals =>
    cases a with
    | signalAcceptedResponse => exact hsame (List.cons.inj hrest).2
    | _ => simp [shape, Application.shape] at hshape
  | updates =>
    cases a with
    | raw other =>
      obtain rfl := Shape.raw.inj hshape
      exact hsame hrest
    | _ => simp [shape, Application.shape] at hshape
  | reconciliation =>
    cases a with
    | activityReconciliation => exact hsame (List.cons.inj hrest).2
    | _ => simp [shape, Application.shape] at hshape
  | asyncActivities =>
    cases a with
    | asyncActivity | asyncActivityResolution => exact hsame (List.cons.inj hrest).2
    | _ => simp [shape, Application.shape] at hshape
  | childCancellations =>
    cases a with
    | pair other =>
      obtain rfl := Shape.pair.inj hshape
      exact hsame hrest
    | _ => simp [shape, Application.shape] at hshape
  | timeline =>
    have hword' : js "timeline" ≠ js "ckpt" := by decide
    cases a with
    | timeline => exact hsame hrest
    | workflow => simp [lead, trail, Application.rest] at hrest
    | checkpoint | checkpointHistory => simp [lead, trail, Application.rest, hword'] at hrest
    | _ => simp [shape, Application.shape] at hshape

end ScanFamily

/-- Two applications have one key only where they overlap, and a scan of one workflow meets no key
of another. -/
theorem keys_unambiguous_iff (a b : Application) :
    ((a.key = b.key → a = b) ↔ ¬ (Overlaps a b ∨ Overlaps b a)) ∧
      ∀ (family : ScanFamily) (workflowId : Component),
        family.scanPrefix workflowId <+: a.key → family.owner a = some workflowId :=
  ⟨key_injective_iff a b, fun _ _ => ScanFamily.owner_of_prefix⟩

/-- The attributes `a` and `a:s:b` of one workflow share an index row. -/
theorem attribute_rows_meet :
    let run : Component := ⟨js "run-1", isSome_encode_run⟩
    let outer : EncodedValue := ⟨encodeAttributeValue (.string (js "b:s:c")), _, rfl⟩
    let inner : EncodedValue := ⟨encodeAttributeValue (.string (js "c")), _, rfl⟩
    (Application.attributeIndex (js "a") outer run).key =
        (Application.attributeIndex (js "a:s:b") inner run).key ∧
      Application.attributeIndex (js "a") outer run ≠ .attributeIndex (js "a:s:b") inner run := by
  intro run outer inner
  have hrow : js "a" ++ colon :: outer.1 = js "a:s:b" ++ colon :: inner.1 := by decide
  constructor
  · simp only [Application.key, KEYS.attributeIndex, List.append_assoc, hrow]
  · intro h
    have hname : js "a" ≠ js "a:s:b" := by decide
    exact hname (Application.attributeIndex.inj h).1

end Weft.Storage
