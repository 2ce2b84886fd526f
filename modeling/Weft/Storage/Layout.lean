import Weft.Storage.Registry

/-! The layout of the keys: every application of a constructor is a word and fields with colons
between them, and all but the applications with raw text in the middle are read back from them. -/

namespace Weft.Storage
open Weft.Js Weft.Attributes

/-! ## Applications of the constructors -/

/-- Constructors of a literal and an id. -/
inductive OwnFamily where
  | schedule | scheduleRun | scheduleRunLink | attribute | workflowHeaders
  | terminalCleanupNeeded | workflowConcurrencyHolder | workflowHasServices | finalizerState
  | teardownOwed | teardownSucceeded | teardownDeadLetter | workflowVisibilityManifest
deriving DecidableEq

/-- Constructors of a literal, a timestamp and an id. -/
inductive TimedFamily where
  | scheduleTick | deadline | delayedStart | terminalWorkflow | workflowVisibilityCreated
  | workflowVisibilityUpdated | workflowVisibilityDeadline
deriving DecidableEq

/-- Constructors of a literal and two encoded components. -/
inductive PairFamily where
  | scheduleRunBySchedule | tagIndex | childCancellation | workflowVisibilityStatus
  | workflowVisibilityType
deriving DecidableEq

/-- Constructors of a literal, an id and a text that is not encoded. -/
inductive RawFamily where
  | update | updateIdempotency | review | offload | archive
deriving DecidableEq

/-- Constructors of a literal under `op:` and an operation id. -/
inductive TaskFamily where
  | operationInflight | operationQueued | operationResolved | operationDeadLetter
deriving DecidableEq

/-- The outputs of `encodeAttributeValue`. -/
def EncodedValue : Type := { text : JsString // ∃ value, encodeAttributeValue value = text }

/-- An integer that fits the padding. -/
abbrev Padded (width : Nat) : Type := Fin (10 ^ width)

/-- A constructor of the registry with its arguments. -/
inductive Application where
  | own (family : OwnFamily) (id : Component)
  | timed (family : TimedFamily) (time : Padded 16) (id : Component)
  | pair (family : PairFamily) (first second : Component)
  | raw (family : RawFamily) (workflowId : Component) (text : JsString)
  | workflow (id : Component)
  | checkpoint (id : Component)
  | checkpointHistory (id : Component) (step : Padded 10)
  | timeline (id : Component) (step : Padded 10)
  | operation (queue : JsString) (scheduledAt : Padded 16) (id : JsString)
  | task (family : TaskFamily) (id : JsString)
  | operationResolvedByTime (resolvedAt : Padded 16) (id : Component)
  | asyncActivity (workflowId token : Component)
  | asyncActivityResolution (workflowId token : Component)
  | activityReconciliation (workflowId activityName : Component) (idempotencyKeyDigest : JsString)
  | event (workflowId : Component) (sequence : Padded 10)
  | eventHead (workflowId : Component)
  | eventWatermark (workflowId : Component)
  | fleetEventByWorkflow (workflowId : Component) (sequence : Padded 10)
  | signal (workflowId name id : Component)
  | startSignal (workflowId name id : Component)
  | signalSequence (workflowId : Component)
  | signalAcceptedResponse (workflowId name signalId : Component)
  | attributeIndex (attributeName : JsString) (encodedValue : EncodedValue) (workflowId : Component)
  | childWorkflowByParent (parentWorkflowId : Component)
      (parentWorkflowExecutionToken : Option Component) (childWorkflowId : Component)
  | stateExecution (ownerWorkflowId key : Component)
  | streamChunk (workflowId : Component) (key : JsString) (chunkIndex : Padded 10)
  | streamTail (workflowId : Component) (key : JsString)
  | streamMetadata (workflowId : Component) (key : JsString)
  | budgetCharged (operationId : JsString)
  | toolEffect (workflowId : Component) (agentId semanticHash : JsString)

def OwnFamily.key : OwnFamily → Component → JsString
  | .schedule => KEYS.schedule
  | .scheduleRun => KEYS.scheduleRun
  | .scheduleRunLink => KEYS.scheduleRunLink
  | .attribute => KEYS.attributes
  | .workflowHeaders => KEYS.workflowHeaders
  | .terminalCleanupNeeded => KEYS.terminalCleanupNeeded
  | .workflowConcurrencyHolder => KEYS.workflowConcurrencyHolder
  | .workflowHasServices => KEYS.workflowHasServices
  | .finalizerState => KEYS.finalizerState
  | .teardownOwed => KEYS.teardownOwed
  | .teardownSucceeded => KEYS.teardownSucceeded
  | .teardownDeadLetter => KEYS.teardownDeadLetter
  | .workflowVisibilityManifest => KEYS.workflowVisibilityManifest

def TimedFamily.key : TimedFamily → Nat → Component → JsString
  | .scheduleTick => KEYS.scheduleTick
  | .deadline => KEYS.deadline
  | .delayedStart => KEYS.delayedStart
  | .terminalWorkflow => fun time => KEYS.terminalWorkflow (.ofNat time)
  | .workflowVisibilityCreated => fun time => KEYS.workflowVisibilityCreated (.ofNat time)
  | .workflowVisibilityUpdated => fun time => KEYS.workflowVisibilityUpdated (.ofNat time)
  | .workflowVisibilityDeadline => fun time => KEYS.workflowVisibilityDeadline (.ofNat time)

def PairFamily.key : PairFamily → Component → Component → JsString
  | .scheduleRunBySchedule => KEYS.scheduleRunBySchedule
  | .tagIndex => KEYS.tagIndex
  | .childCancellation => KEYS.childCancellation
  | .workflowVisibilityStatus => KEYS.workflowVisibilityStatus
  | .workflowVisibilityType => KEYS.workflowVisibilityType

def RawFamily.key : RawFamily → Component → JsString → JsString
  | .update => KEYS.update
  | .updateIdempotency => KEYS.updateIdempotency
  | .review => KEYS.review
  | .offload => KEYS.offload
  | .archive => KEYS.archive

def TaskFamily.key : TaskFamily → JsString → JsString
  | .operationInflight => KEYS.operationInflight
  | .operationQueued => KEYS.operationQueued
  | .operationResolved => KEYS.operationResolved
  | .operationDeadLetter => KEYS.operationDeadLetter

def Application.key : Application → JsString
  | .own family id => family.key id
  | .timed family time id => family.key time.val id
  | .pair family first second => family.key first second
  | .raw family workflowId text => family.key workflowId text
  | .workflow id => KEYS.workflow id
  | .checkpoint id => KEYS.checkpoint id
  | .checkpointHistory id step => KEYS.checkpointHistory id step.val
  | .timeline id step => KEYS.timeline id step.val
  | .operation queue scheduledAt id => KEYS.operation queue scheduledAt.val id
  | .task family id => family.key id
  | .operationResolvedByTime resolvedAt id => KEYS.operationResolvedByTime resolvedAt.val id
  | .asyncActivity workflowId token => KEYS.asyncActivity workflowId token
  | .asyncActivityResolution workflowId token => KEYS.asyncActivityResolution workflowId token
  | .activityReconciliation workflowId activityName idempotencyKeyDigest =>
    KEYS.activityReconciliation workflowId activityName idempotencyKeyDigest
  | .event workflowId sequence => KEYS.event workflowId sequence.val
  | .eventHead workflowId => KEYS.eventHead workflowId
  | .eventWatermark workflowId => KEYS.eventWatermark workflowId
  | .fleetEventByWorkflow workflowId sequence => KEYS.fleetEventByWorkflow workflowId sequence.val
  | .signal workflowId name id => KEYS.signal workflowId name id
  | .startSignal workflowId name id => KEYS.startSignal workflowId name id
  | .signalSequence workflowId => KEYS.signalSequence workflowId
  | .signalAcceptedResponse workflowId name signalId =>
    KEYS.signalAcceptedResponse workflowId name signalId
  | .attributeIndex attributeName encodedValue workflowId =>
    KEYS.attributeIndex attributeName encodedValue.1 workflowId
  | .childWorkflowByParent parentWorkflowId parentWorkflowExecutionToken childWorkflowId =>
    KEYS.childWorkflowByParent parentWorkflowId parentWorkflowExecutionToken childWorkflowId
  | .stateExecution ownerWorkflowId key => KEYS.stateExecution ownerWorkflowId key
  | .streamChunk workflowId key chunkIndex => KEYS.streamChunk workflowId key chunkIndex.val
  | .streamTail workflowId key => KEYS.streamTail workflowId key
  | .streamMetadata workflowId key => KEYS.streamMetadata workflowId key
  | .budgetCharged operationId => KEYS.budgetCharged operationId
  | .toolEffect workflowId agentId semanticHash => KEYS.toolEffect workflowId agentId semanticHash

/-! ## Words -/

/-- The literals that keys begin with. -/
inductive Shape where
  | own (family : OwnFamily)
  | timed (family : TimedFamily)
  | pair (family : PairFamily)
  | raw (family : RawFamily)
  | record | operation | asyncActivity | activityReconciliation | event | fleetEvent | signal
  | signalSequence | signalAcceptedResponse | attributeIndex | childWorkflowByParent | state
  | stream | budgetCharged | toolEffect
deriving DecidableEq

def OwnFamily.literal : OwnFamily → JsString
  | .schedule => js "schedule:"
  | .scheduleRun => js "schedule-run:"
  | .scheduleRunLink => js "schedule-run-link:"
  | .attribute => js "attr:"
  | .workflowHeaders => js "wf-headers:"
  | .terminalCleanupNeeded => js "wf-cleanup-needed:"
  | .workflowConcurrencyHolder => js "wf-concurrency-holder:"
  | .workflowHasServices => js "wf-has-services:"
  | .finalizerState => js "wf-finalizer-state:"
  | .teardownOwed => js "wf-teardown-needed:"
  | .teardownSucceeded => js "wf-teardown-succeeded:"
  | .teardownDeadLetter => js "wf-teardown-deadletter:"
  | .workflowVisibilityManifest => js "wf-idx-manifest:"

def TimedFamily.literal : TimedFamily → JsString
  | .scheduleTick => js "schedule-due:"
  | .deadline => js "wf-deadline:"
  | .delayedStart => js "wf-delayed:"
  | .terminalWorkflow => js "wf-terminal:"
  | .workflowVisibilityCreated => js "wf-idx-created:"
  | .workflowVisibilityUpdated => js "wf-idx-updated:"
  | .workflowVisibilityDeadline => js "wf-idx-deadline:"

def PairFamily.literal : PairFamily → JsString
  | .scheduleRunBySchedule => js "schedule-run-by-schedule:"
  | .tagIndex => js "tag:"
  | .childCancellation => js "child-cancel:"
  | .workflowVisibilityStatus => js "wf-idx-status:"
  | .workflowVisibilityType => js "wf-idx-type:"

def RawFamily.literal : RawFamily → JsString
  | .update => js "upd:"
  | .updateIdempotency => js "upk:"
  | .review => js "review:"
  | .offload => js "offload:"
  | .archive => js "archive:"

def Shape.literal : Shape → JsString
  | .own family => family.literal
  | .timed family => family.literal
  | .pair family => family.literal
  | .raw family => family.literal
  | .record => js "wf:"
  | .operation => js "op:"
  | .asyncActivity => js "async-act:"
  | .activityReconciliation => js "actrec:"
  | .event => js "ev:"
  | .fleetEvent => js "fleet-event-by-workflow:"
  | .signal => js "sig:"
  | .signalSequence => js "sigseq:"
  | .signalAcceptedResponse => js "sigres:"
  | .attributeIndex => js "idx:"
  | .childWorkflowByParent => js "child-by-parent:"
  | .state => js "state:"
  | .stream => js "blob:"
  | .budgetCharged => js "budget-charged:"
  | .toolEffect => js "tool-effect:"

/-- The literal without its colon. -/
def Shape.word (shape : Shape) : JsString := shape.literal.dropLast

def OwnFamily.all : List OwnFamily :=
  [.schedule, .scheduleRun, .scheduleRunLink, .attribute, .workflowHeaders,
    .terminalCleanupNeeded, .workflowConcurrencyHolder, .workflowHasServices, .finalizerState,
    .teardownOwed, .teardownSucceeded, .teardownDeadLetter, .workflowVisibilityManifest]

def TimedFamily.all : List TimedFamily :=
  [.scheduleTick, .deadline, .delayedStart, .terminalWorkflow, .workflowVisibilityCreated,
    .workflowVisibilityUpdated, .workflowVisibilityDeadline]

def PairFamily.all : List PairFamily :=
  [.scheduleRunBySchedule, .tagIndex, .childCancellation, .workflowVisibilityStatus,
    .workflowVisibilityType]

def RawFamily.all : List RawFamily := [.update, .updateIdempotency, .review, .offload, .archive]

def Shape.special : List Shape :=
  [.record, .operation, .asyncActivity, .activityReconciliation, .event, .fleetEvent, .signal,
    .signalSequence, .signalAcceptedResponse, .attributeIndex, .childWorkflowByParent, .state,
    .stream, .budgetCharged, .toolEffect]

def Shape.all : List Shape :=
  OwnFamily.all.map Shape.own ++ TimedFamily.all.map Shape.timed ++ PairFamily.all.map Shape.pair ++
    RawFamily.all.map Shape.raw ++ Shape.special

theorem OwnFamily.mem_all (family : OwnFamily) : family ∈ OwnFamily.all := by
  cases family <;> decide

theorem TimedFamily.mem_all (family : TimedFamily) : family ∈ TimedFamily.all := by
  cases family <;> decide

theorem PairFamily.mem_all (family : PairFamily) : family ∈ PairFamily.all := by
  cases family <;> decide

theorem RawFamily.mem_all (family : RawFamily) : family ∈ RawFamily.all := by
  cases family <;> decide

theorem Shape.mem_all (shape : Shape) : shape ∈ Shape.all := by
  simp only [Shape.all, List.mem_append]
  cases shape with
  | own family => exact .inl (.inl (.inl (.inl (List.mem_map_of_mem family.mem_all))))
  | timed family => exact .inl (.inl (.inl (.inr (List.mem_map_of_mem family.mem_all))))
  | pair family => exact .inl (.inl (.inr (List.mem_map_of_mem family.mem_all)))
  | raw family => exact .inl (.inr (List.mem_map_of_mem family.mem_all))
  | _ => exact .inr (by decide)

theorem Shape.words_nodup : (Shape.all.map Shape.word).Nodup := by decide +kernel

theorem Shape.word_injective {s t : Shape} (h : s.word = t.word) : s = t :=
  List.inj_on_of_nodup_map Shape.words_nodup s.mem_all t.mem_all h

theorem Shape.words_closed : ∀ s ∈ Shape.all, s.literal = s.word ++ [colon] ∧ colon ∉ s.word := by
  decide

theorem Shape.literal_eq (s : Shape) : s.literal = s.word ++ [colon] :=
  (Shape.words_closed s s.mem_all).1

theorem Shape.colon_notMem (s : Shape) : colon ∉ s.word := (Shape.words_closed s s.mem_all).2

/-! ## Fields -/

/-- What stands between the colons of a key. -/
def fields (key : JsString) : List JsString := key.splitOn colon

theorem fields_append (x y : JsString) : fields (x ++ colon :: y) = fields x ++ fields y :=
  List.splitOn_append_cons_self x y

theorem fields_closed {x : JsString} (h : colon ∉ x) : fields x = [x] := List.splitOn_eq_singleton h

theorem fields_closed_append {x : JsString} (h : colon ∉ x) (y : JsString) :
    fields (x ++ colon :: y) = x :: fields y := by
  rw [fields_append, fields_closed h]
  rfl

theorem join_fields (x : JsString) : [colon].intercalate (fields x) = x :=
  List.intercalate_splitOn colon

theorem colon_notMem_paddedNat (w n : Nat) : colon ∉ paddedNat w n := by
  intro h
  obtain ⟨d, hd, hcolon⟩ := mem_paddedNat h
  have hval := digitUnit_val hd
  rw [← hcolon] at hval
  have : colon.val = 58 := rfl
  omega

@[simp] theorem fields_enc (c : Component) : fields c.enc = [c.enc] := fields_closed c.colon_notMem

@[simp] theorem fields_padded (w n : Nat) : fields (paddedNat w n) = [paddedNat w n] :=
  fields_closed (colon_notMem_paddedNat w n)

@[simp] theorem fields_enc_append (c : Component) (y : JsString) :
    fields (c.enc ++ colon :: y) = c.enc :: fields y :=
  fields_closed_append c.colon_notMem y

@[simp] theorem fields_padded_append (w n : Nat) (y : JsString) :
    fields (paddedNat w n ++ colon :: y) = paddedNat w n :: fields y :=
  fields_closed_append (colon_notMem_paddedNat w n) y

theorem fields_literal (s : Shape) (x : JsString) :
    fields (s.literal ++ x) = s.word :: fields x := by
  rw [s.literal_eq, List.append_assoc]
  exact fields_closed_append s.colon_notMem x

theorem padStart_cast (w n : Nat) : padStart (integerUnits (n : Int)) w (digitUnit 0) =
    paddedNat w n := by
  have h : ¬ ((n : Int) < 0) := by omega
  simp only [integerUnits, h, if_false, Int.natAbs_natCast, paddedNat]

def TaskFamily.word : TaskFamily → JsString
  | .operationInflight => js "inflight"
  | .operationQueued => js "queued"
  | .operationResolved => js "resolved"
  | .operationDeadLetter => js "dead-letter"

theorem TaskFamily.key_eq (family : TaskFamily) (id : JsString) :
    family.key id = Shape.operation.literal ++ (family.word ++ colon :: id) := by
  have h : ∀ text : JsString, text ++ colon :: id = text ++ [colon] ++ id := by simp
  rw [h, ← List.append_assoc]
  cases family <;> exact congrArg (· ++ id) (by decide)

theorem TaskFamily.colon_notMem (family : TaskFamily) : colon ∉ family.word := by
  cases family <;> decide

theorem OwnFamily.key_eq (family : OwnFamily) (id : Component) :
    family.key id = (Shape.own family).literal ++ id.enc := by
  cases family <;> rfl

theorem TimedFamily.key_eq (family : TimedFamily) (time : Padded 16) (id : Component) :
    family.key time.val id =
      (Shape.timed family).literal ++ (paddedNat 16 time.val ++ colon :: id.enc) := by
  have h := formatSortableTimestamp_ofNat time.isLt
  cases family with
  | scheduleTick | deadline | delayedStart => exact List.append_assoc ..
  | terminalWorkflow => exact (List.append_assoc ..).trans (by rw [h]; rfl)
  | workflowVisibilityCreated => exact (List.append_assoc ..).trans (by rw [h]; rfl)
  | workflowVisibilityUpdated => exact (List.append_assoc ..).trans (by rw [h]; rfl)
  | workflowVisibilityDeadline => exact (List.append_assoc ..).trans (by rw [h]; rfl)

theorem PairFamily.key_eq (family : PairFamily) (first second : Component) :
    family.key first second =
      (Shape.pair family).literal ++ (first.enc ++ colon :: second.enc) := by
  cases family <;> exact List.append_assoc ..

theorem RawFamily.key_eq (family : RawFamily) (workflowId : Component) (text : JsString) :
    family.key workflowId text =
      (Shape.raw family).literal ++ (workflowId.enc ++ colon :: text) := by
  cases family <;> exact List.append_assoc ..

namespace Application

def shape : Application → Shape
  | .own family _ => .own family
  | .timed family _ _ => .timed family
  | .pair family _ _ => .pair family
  | .raw family _ _ => .raw family
  | .workflow _ | .checkpoint _ | .checkpointHistory _ _ | .timeline _ _ => .record
  | .operation _ _ _ | .task _ _ | .operationResolvedByTime _ _ => .operation
  | .asyncActivity _ _ | .asyncActivityResolution _ _ => .asyncActivity
  | .activityReconciliation _ _ _ => .activityReconciliation
  | .event _ _ | .eventHead _ | .eventWatermark _ => .event
  | .fleetEventByWorkflow _ _ => .fleetEvent
  | .signal _ _ _ | .startSignal _ _ _ => .signal
  | .signalSequence _ => .signalSequence
  | .signalAcceptedResponse _ _ _ => .signalAcceptedResponse
  | .attributeIndex _ _ _ => .attributeIndex
  | .childWorkflowByParent _ _ _ => .childWorkflowByParent
  | .stateExecution _ _ => .state
  | .streamChunk _ _ _ | .streamTail _ _ | .streamMetadata _ _ => .stream
  | .budgetCharged _ => .budgetCharged
  | .toolEffect _ _ _ => .toolEffect

/-- The fields after the first word. -/
def rest : Application → List JsString
  | .own _ id => [id.enc]
  | .timed _ time id => [paddedNat 16 time.val, id.enc]
  | .pair _ first second => [first.enc, second.enc]
  | .raw _ workflowId text => workflowId.enc :: fields text
  | .workflow id => [id.enc]
  | .checkpoint id => [id.enc, js "ckpt"]
  | .checkpointHistory id step => [id.enc, js "ckpt", paddedNat 10 step.val]
  | .timeline id step => [id.enc, js "timeline", paddedNat 10 step.val]
  | .operation queue scheduledAt id => fields queue ++ paddedNat 16 scheduledAt.val :: fields id
  | .task family id => family.word :: fields id
  | .operationResolvedByTime resolvedAt id =>
    [js "resolved-by-time", paddedNat 16 resolvedAt.val, id.enc]
  | .asyncActivity workflowId token => [js "v1", workflowId.enc, token.enc]
  | .asyncActivityResolution workflowId token =>
    [js "v1", workflowId.enc, token.enc, js "resolution"]
  | .activityReconciliation workflowId activityName idempotencyKeyDigest =>
    js "v1" :: workflowId.enc :: activityName.enc :: fields idempotencyKeyDigest
  | .event workflowId sequence => [workflowId.enc, paddedNat 10 sequence.val]
  | .eventHead workflowId => [workflowId.enc, js "head"]
  | .eventWatermark workflowId => [workflowId.enc, js "watermark"]
  | .fleetEventByWorkflow workflowId sequence => [workflowId.enc, paddedNat 10 sequence.val]
  | .signal workflowId name id => [workflowId.enc, name.enc, js "1", id.enc]
  | .startSignal workflowId name id => [workflowId.enc, name.enc, js "0", id.enc]
  | .signalSequence workflowId => [js "v1", workflowId.enc]
  | .signalAcceptedResponse workflowId name signalId =>
    [js "v1", workflowId.enc, name.enc, signalId.enc]
  | .attributeIndex attributeName encodedValue workflowId =>
    fields attributeName ++ fields encodedValue.1 ++ [workflowId.enc]
  | .childWorkflowByParent parentWorkflowId none childWorkflowId =>
    [parentWorkflowId.enc, childWorkflowId.enc]
  | .childWorkflowByParent parentWorkflowId (some token) childWorkflowId =>
    [parentWorkflowId.enc, token.enc, childWorkflowId.enc]
  | .stateExecution ownerWorkflowId key => [js "execution", ownerWorkflowId.enc, key.enc]
  | .streamChunk workflowId key chunkIndex =>
    workflowId.enc :: fields key ++ [js "chunk", paddedNat 10 chunkIndex.val]
  | .streamTail workflowId key => workflowId.enc :: fields key ++ [js "tail"]
  | .streamMetadata workflowId key => workflowId.enc :: fields key ++ [js "meta"]
  | .budgetCharged operationId => fields operationId
  | .toolEffect workflowId agentId semanticHash =>
    workflowId.enc :: fields agentId ++ fields semanticHash

end Application

/-! ### Literals inside keys -/

theorem ckpt_text : js ":ckpt" = colon :: js "ckpt" ∧
    js ":ckpt:" = colon :: (js "ckpt" ++ [colon]) := by
  decide

theorem timeline_text : js ":timeline:" = colon :: (js "timeline" ++ [colon]) := by decide

theorem version_text : js "async-act:v1:" = js "async-act:" ++ (js "v1" ++ [colon]) ∧
      js "actrec:v1:" = js "actrec:" ++ (js "v1" ++ [colon]) ∧
      js "sigseq:v1:" = js "sigseq:" ++ (js "v1" ++ [colon]) ∧
      js "sigres:v1:" = js "sigres:" ++ (js "v1" ++ [colon]) := by
  decide

theorem resolvedByTime_text :
    js "op:resolved-by-time:" = js "op:" ++ (js "resolved-by-time" ++ [colon]) := by
  decide

theorem execution_text : js "state:execution:" = js "state:" ++ (js "execution" ++ [colon]) := by
  decide

theorem resolution_text : js ":resolution" = colon :: js "resolution" := by decide

theorem stream_text : js ":chunk:" = colon :: (js "chunk" ++ [colon]) ∧
    js ":tail" = colon :: js "tail" ∧ js ":meta" = colon :: js "meta" := by
  decide

theorem inner_closed : colon ∉ js "ckpt" ∧ colon ∉ js "timeline" ∧ colon ∉ js "v1" ∧
    colon ∉ js "resolved-by-time" ∧ colon ∉ js "execution" ∧ colon ∉ js "resolution" := by
  decide

theorem last_closed : colon ∉ js "chunk" ∧ colon ∉ js "tail" ∧ colon ∉ js "meta" ∧
    colon ∉ js "head" ∧ colon ∉ js "watermark" ∧ colon ∉ js "0" ∧ colon ∉ js "1" := by
  decide

/-- The key of an application is its word and its other fields. -/
theorem fields_key (a : Application) : fields a.key = a.shape.word :: a.rest := by
  obtain ⟨hckpt, htimeline, hv1, hbyTime, hexecution, hresolution⟩ := inner_closed
  obtain ⟨hchunk, htail, hmeta, hhead, hwatermark, h0, h1⟩ := last_closed
  cases a with
  | own family id =>
    rw [Application.key, family.key_eq, fields_literal, fields_enc]
    rfl
  | timed family time id =>
    rw [Application.key, family.key_eq, fields_literal, fields_padded_append, fields_enc]
    rfl
  | pair family first second =>
    rw [Application.key, family.key_eq, fields_literal, fields_enc_append, fields_enc]
    rfl
  | raw family workflowId text =>
    rw [Application.key, family.key_eq, fields_literal, fields_enc_append]
    rfl
  | task family id =>
    rw [Application.key, family.key_eq, fields_literal,
      fields_closed_append family.colon_notMem]
    rfl
  | workflow id =>
    exact (fields_literal .record _).trans (by rw [fields_enc]; rfl)
  | checkpoint id =>
    simp only [Application.key, KEYS.checkpoint, ckpt_text.1, List.append_assoc]
    refine (fields_literal .record _).trans ?_
    rw [fields_enc_append, fields_closed hckpt]
    rfl
  | checkpointHistory id step =>
    simp only [Application.key, KEYS.checkpointHistory, ckpt_text.2, padStart_cast,
      List.append_assoc, List.cons_append, List.nil_append]
    refine (fields_literal .record _).trans ?_
    rw [fields_enc_append, fields_closed_append hckpt, fields_padded]
    rfl
  | timeline id step =>
    simp only [Application.key, KEYS.timeline, timeline_text, padStart_cast,
      List.append_assoc, List.cons_append, List.nil_append]
    refine (fields_literal .record _).trans ?_
    rw [fields_enc_append, fields_closed_append htimeline, fields_padded]
    rfl
  | operation queue scheduledAt id =>
    simp only [Application.key, KEYS.operation, List.append_assoc, List.cons_append]
    refine (fields_literal .operation _).trans ?_
    rw [fields_append, fields_padded_append]
    rfl
  | operationResolvedByTime resolvedAt id =>
    simp only [Application.key, KEYS.operationResolvedByTime, resolvedByTime_text,
      List.append_assoc, List.cons_append, List.nil_append]
    refine (fields_literal .operation _).trans ?_
    rw [fields_closed_append hbyTime, fields_padded_append, fields_enc]
    rfl
  | asyncActivity workflowId token =>
    simp only [Application.key, KEYS.asyncActivity, version_text.1, List.append_assoc,
      List.cons_append, List.nil_append]
    refine (fields_literal .asyncActivity _).trans ?_
    rw [fields_closed_append hv1, fields_enc_append, fields_enc]
    rfl
  | asyncActivityResolution workflowId token =>
    simp only [Application.key, KEYS.asyncActivityResolution, version_text.1, resolution_text,
      List.append_assoc, List.cons_append, List.nil_append]
    refine (fields_literal .asyncActivity _).trans ?_
    rw [fields_closed_append hv1, fields_enc_append, fields_enc_append, fields_closed hresolution]
    rfl
  | activityReconciliation workflowId activityName idempotencyKeyDigest =>
    simp only [Application.key, KEYS.activityReconciliation, version_text.2.1, List.append_assoc,
      List.cons_append, List.nil_append]
    refine (fields_literal .activityReconciliation _).trans ?_
    rw [fields_closed_append hv1, fields_enc_append, fields_enc_append]
    rfl
  | event workflowId sequence =>
    simp only [Application.key, KEYS.event, KEYS.eventPrefix, padStart_cast, List.append_assoc,
      List.cons_append, List.nil_append]
    refine (fields_literal .event _).trans ?_
    rw [fields_enc_append, fields_padded]
    rfl
  | eventHead workflowId =>
    simp only [Application.key, KEYS.eventHead, KEYS.eventPrefix, List.append_assoc,
      List.cons_append, List.nil_append]
    refine (fields_literal .event _).trans ?_
    rw [fields_enc_append, fields_closed hhead]
    rfl
  | eventWatermark workflowId =>
    simp only [Application.key, KEYS.eventWatermark, KEYS.eventPrefix, List.append_assoc,
      List.cons_append, List.nil_append]
    refine (fields_literal .event _).trans ?_
    rw [fields_enc_append, fields_closed hwatermark]
    rfl
  | fleetEventByWorkflow workflowId sequence =>
    simp only [Application.key, KEYS.fleetEventByWorkflow, List.append_assoc]
    refine (fields_literal .fleetEvent _).trans ?_
    rw [fields_enc_append, fields_padded]
    rfl
  | signal workflowId name id =>
    simp only [Application.key, KEYS.signal, KEYS.signalStorageKey, List.append_assoc,
      List.cons_append, List.nil_append]
    refine (fields_literal .signal _).trans ?_
    rw [fields_enc_append, fields_enc_append, fields_closed_append h1, fields_enc]
    rfl
  | startSignal workflowId name id =>
    simp only [Application.key, KEYS.startSignal, KEYS.signalStorageKey, List.append_assoc,
      List.cons_append, List.nil_append]
    refine (fields_literal .signal _).trans ?_
    rw [fields_enc_append, fields_enc_append, fields_closed_append h0, fields_enc]
    rfl
  | signalSequence workflowId =>
    simp only [Application.key, KEYS.signalSequence, version_text.2.2.1, List.append_assoc,
      List.cons_append, List.nil_append]
    refine (fields_literal .signalSequence _).trans ?_
    rw [fields_closed_append hv1, fields_enc]
    rfl
  | signalAcceptedResponse workflowId name signalId =>
    simp only [Application.key, KEYS.signalAcceptedResponse, version_text.2.2.2,
      List.append_assoc, List.cons_append, List.nil_append]
    refine (fields_literal .signalAcceptedResponse _).trans ?_
    rw [fields_closed_append hv1, fields_enc_append, fields_enc_append, fields_enc]
    rfl
  | attributeIndex attributeName encodedValue workflowId =>
    simp only [Application.key, KEYS.attributeIndex, List.append_assoc, List.cons_append]
    refine (fields_literal .attributeIndex _).trans ?_
    rw [fields_append, fields_append, fields_enc, ← List.append_assoc]
    rfl
  | childWorkflowByParent parentWorkflowId parentWorkflowExecutionToken childWorkflowId =>
    cases parentWorkflowExecutionToken with
    | none =>
      simp only [Application.key, KEYS.childWorkflowByParent, Option.map_none, Option.getD_none,
        List.append_assoc, List.nil_append]
      refine (fields_literal .childWorkflowByParent _).trans ?_
      rw [fields_enc_append, fields_enc]
      rfl
    | some token =>
      simp only [Application.key, KEYS.childWorkflowByParent, Option.map_some, Option.getD_some,
        List.append_assoc, List.cons_append, List.nil_append]
      refine (fields_literal .childWorkflowByParent _).trans ?_
      rw [fields_enc_append, fields_enc_append, fields_enc]
      rfl
  | stateExecution ownerWorkflowId key =>
    simp only [Application.key, KEYS.stateExecution, execution_text, List.append_assoc,
      List.cons_append, List.nil_append]
    refine (fields_literal .state _).trans ?_
    rw [fields_closed_append hexecution, fields_enc_append, fields_enc]
    rfl
  | streamChunk workflowId key chunkIndex =>
    simp only [Application.key, KEYS.streamChunk, stream_text.1, List.append_assoc,
      List.cons_append, List.nil_append]
    refine (fields_literal .stream _).trans ?_
    rw [fields_enc_append, fields_append, fields_closed_append hchunk, fields_padded]
    rfl
  | streamTail workflowId key =>
    simp only [Application.key, KEYS.streamTail, stream_text.2.1, List.append_assoc,
      List.cons_append]
    refine (fields_literal .stream _).trans ?_
    rw [fields_enc_append, fields_append, fields_closed htail]
    rfl
  | streamMetadata workflowId key =>
    simp only [Application.key, KEYS.streamMetadata, stream_text.2.2, List.append_assoc,
      List.cons_append]
    refine (fields_literal .stream _).trans ?_
    rw [fields_enc_append, fields_append, fields_closed hmeta]
    rfl
  | budgetCharged operationId => exact fields_literal .budgetCharged operationId
  | toolEffect workflowId agentId semanticHash =>
    simp only [Application.key, KEYS.toolEffect, List.append_assoc, List.cons_append]
    refine (fields_literal .toolEffect _).trans ?_
    rw [fields_enc_append, fields_append]
    rfl

end Weft.Storage
