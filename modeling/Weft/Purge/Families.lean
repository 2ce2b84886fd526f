import Weft.Lib.Lists

/-! The key families that the engine writes for a workflow, and the deletes that a purge collects
for a run that has ended: its history by prefixes, and the remainder by names taken from the run's
records and from the requests and links that are stored. -/

namespace Weft.Purge

/-- The key families that the engine writes for a workflow. -/
inductive Family where
  | workflow
  | checkpoint
  | checkpointHistory
  | timeline
  | workflowHeaders
  | terminalCleanupNeeded
  | workflowConcurrencyHolder
  | scheduleRun
  | scheduleRunLink
  | scheduleRunBySchedule
  | workflowHasServices
  | finalizerState
  | teardownOwed
  | teardownSucceeded
  | teardownDeadLetter
  | attribute
  | attributeIndex
  | tagIndex
  | workflowVisibility
  | workflowVisibilityManifest
  | terminalWorkflow
  | childWorkflowByParent
  | event
  | fleetEvent
  | fleetEventByWorkflow
  | signal
  | signalSequence
  | signalAcceptedResponse
  | update
  | updateResponse
  | updateIdempotency
  | review
  | offload
  | archive
  | blob
  | stateExecution
  | toolEffect
  | activityReconciliation
  | asyncActivity
  | childCancellation
  | terminalCleanupTimer
  | teardownTimer
  | delayedStartTimer
  /-- The row of the deadline timer, which is under the id of the timer. -/
  | deadlineTimer
  /-- A row with the time of the deadline under the id of the workflow, which no timer has. -/
  | workflowDeadline
  | deadlineTimerIndex
  | sleepTimer
  | sleepTimerIndex
  | startIdempotency
deriving DecidableEq

/-- Records that outlive their run on purpose: the new run does not read them as its own. -/
def Family.outlivesRun : Family → Bool
  | .teardownDeadLetter | .startIdempotency => true
  | _ => false

/-- `item` tells the keys of a family apart: a step, a name, the time of a timer. -/
structure Key where
  family : Family
  item : Nat := 0
deriving DecidableEq

/-- What the purge reads of the run: its state row, its attribute record and its schedule link. -/
structure EndedRun where
  updatedAt : Nat := 0
  parentWorkflowId : Option Nat := none
  executionDeadline : Option Nat := none
  terminalCleanupToken : Bool := false
  tags : List Nat := []
  attributes : List Nat := []
  visibility : List Nat := []
  schedule : Option Nat := none
deriving DecidableEq

def TERMINAL_CLEANUP_DELAY_MS : Nat := 60000

def workflowPurgePrefixes : List Family :=
  [.checkpointHistory, .timeline, .event, .signal, .review, .offload, .archive, .blob,
    .stateExecution, .toolEffect, .updateIdempotency, .activityReconciliation, .asyncActivity,
    .signalAcceptedResponse]

/-- The families with one key for each workflow that a purge names. -/
def baseFamilies : List Family :=
  [.workflow, .checkpoint, .workflowHeaders, .terminalCleanupNeeded, .workflowConcurrencyHolder,
    .scheduleRun, .workflowHasServices, .finalizerState, .teardownOwed, .teardownSucceeded,
    .attribute]

variable (run : EndedRun) (keys : List Key)

def buildBaseWorkflowDeleteKeys : List Key :=
  baseFamilies.map (⟨·, 0⟩) ++ [⟨.terminalWorkflow, run.updatedAt⟩] ++
    run.parentWorkflowId.toList.map (⟨.childWorkflowByParent, ·⟩)

def addExecutionDeadlineDeleteKeys : List Key :=
  run.executionDeadline.toList.flatMap fun deadline =>
    [⟨.workflowDeadline, deadline⟩, ⟨.deadlineTimerIndex, 0⟩]

def addTerminalCleanupDeleteKey : List Key :=
  if run.terminalCleanupToken then
    [⟨.terminalCleanupTimer, run.updatedAt + TERMINAL_CLEANUP_DELAY_MS⟩]
  else []

def addScheduleRunHistoryDeleteKeys : List Key :=
  ⟨.scheduleRunLink, 0⟩ :: run.schedule.toList.map (⟨.scheduleRunBySchedule, ·⟩)

/-- The stored keys of a family, each with the key that it names in another one. -/
def linkedDeleteKeys (family named : Family) : List Key :=
  (keys.filter (·.family = family)).flatMap fun key => [key, ⟨named, key.item⟩]

def addUpdateRequestDeleteKeys : List Key := linkedDeleteKeys keys .update .updateResponse

def addWorkflowLinkedFleetEventDeleteKeys : List Key :=
  linkedDeleteKeys keys .fleetEventByWorkflow .fleetEvent

/-- The deletes of the remainder, for keys that the store has and for others. -/
def collectWorkflowPurgeRemainder : List Key :=
  run.attributes.map (⟨.attributeIndex, ·⟩) ++ run.tags.map (⟨.tagIndex, ·⟩) ++
    buildBaseWorkflowDeleteKeys run ++ addExecutionDeadlineDeleteKeys run ++
    addTerminalCleanupDeleteKey run ++ addScheduleRunHistoryDeleteKeys run ++
    addUpdateRequestDeleteKeys keys ++ addWorkflowLinkedFleetEventDeleteKeys keys ++
    ⟨.workflowVisibilityManifest, 0⟩ :: run.visibility.map (⟨.workflowVisibility, ·⟩)

/-- The stored keys under the prefixes of the history. -/
def collectWorkflowPrefixSweep : List Key := keys.filter fun key =>
    key.family ∈ workflowPurgePrefixes

/-- The key is one that the purge of the run lists, the stored keys being these: it is in the
history, it has the name that the run's records give to a key of its family, or its request or link
is stored. -/
def Key.Listed (key : Key) : Prop :=
  match key.family with
  | .checkpointHistory | .timeline | .event | .signal | .review | .offload | .archive | .blob
  | .stateExecution | .toolEffect | .updateIdempotency | .activityReconciliation | .asyncActivity
  | .signalAcceptedResponse | .update | .fleetEventByWorkflow => True
  | .workflow | .checkpoint | .workflowHeaders | .terminalCleanupNeeded | .workflowConcurrencyHolder
  | .scheduleRun | .workflowHasServices | .finalizerState | .teardownOwed | .teardownSucceeded
  | .attribute | .scheduleRunLink | .workflowVisibilityManifest => key.item = 0
  | .updateResponse => ⟨.update, key.item⟩ ∈ keys
  | .fleetEvent => ⟨.fleetEventByWorkflow, key.item⟩ ∈ keys
  | .terminalWorkflow => key.item = run.updatedAt
  | .childWorkflowByParent => run.parentWorkflowId = some key.item
  | .scheduleRunBySchedule => run.schedule = some key.item
  | .attributeIndex => key.item ∈ run.attributes
  | .tagIndex => key.item ∈ run.tags
  | .workflowVisibility => key.item ∈ run.visibility
  | .terminalCleanupTimer =>
    run.terminalCleanupToken = true ∧ key.item = run.updatedAt + TERMINAL_CLEANUP_DELAY_MS
  | .workflowDeadline => run.executionDeadline = some key.item
  | .deadlineTimerIndex => run.executionDeadline.isSome = true ∧ key.item = 0
  | .signalSequence | .childCancellation | .teardownTimer | .delayedStartTimer | .deadlineTimer
  | .sleepTimer | .sleepTimerIndex | .teardownDeadLetter | .startIdempotency => False

instance (key : Key) : Decidable (key.Listed run keys) := by
  unfold Key.Listed
  split <;> infer_instance

variable {run : EndedRun} {keys : List Key} {key : Key}

theorem mem_linkedDeleteKeys {family named : Family} : key ∈ linkedDeleteKeys keys family named ↔
    (key ∈ keys ∧ key.family = family) ∨ key.family = named ∧ ⟨family, key.item⟩ ∈ keys := by
  obtain ⟨f, item⟩ := key
  simp only [linkedDeleteKeys, List.mem_flatMap, List.mem_filter, decide_eq_true_eq, List.mem_cons,
    List.not_mem_nil, or_false]
  constructor
  · rintro ⟨⟨f', item'⟩, ⟨hkey, rfl⟩, heq | heq⟩
    · cases heq
      exact .inl ⟨hkey, rfl⟩
    · cases heq
      exact .inr ⟨rfl, hkey⟩
  · rintro (⟨hkey, rfl⟩ | ⟨rfl, hkey⟩)
    · exact ⟨_, ⟨hkey, rfl⟩, .inl rfl⟩
    · exact ⟨_, ⟨hkey, rfl⟩, .inr rfl⟩

/-- Of the stored keys the purge deletes those it lists. -/
theorem deleted_iff_listed (hkey : key ∈ keys) :
    (key ∈ collectWorkflowPurgeRemainder run keys ∨ key ∈ collectWorkflowPrefixSweep keys) ↔
      key.Listed run keys := by
  have hcleanup : key ∈ addTerminalCleanupDeleteKey run ↔ run.terminalCleanupToken = true ∧
      key = ⟨.terminalCleanupTimer, run.updatedAt + TERMINAL_CLEANUP_DELAY_MS⟩ := by
    unfold addTerminalCleanupDeleteKey
    split_ifs with htoken <;> simp [htoken]
  simp only [collectWorkflowPurgeRemainder, collectWorkflowPrefixSweep, List.mem_append,
    List.mem_cons, List.mem_filter, addUpdateRequestDeleteKeys,
    addWorkflowLinkedFleetEventDeleteKeys, mem_linkedDeleteKeys, hcleanup]
  obtain ⟨family, item⟩ := key
  cases family <;>
    simp [Key.Listed, buildBaseWorkflowDeleteKeys, baseFamilies, workflowPurgePrefixes,
      addExecutionDeadlineDeleteKeys, addScheduleRunHistoryDeleteKeys, hkey,
      Option.isSome_iff_exists]

/-- The history may go before the rest: no name is taken from it. -/
theorem Key.Listed.of_kept (h : key.Listed run keys) {kept : List Key}
    (hkept : ∀ k ∈ keys, k.family ∉ workflowPurgePrefixes → k ∈ kept) : key.Listed run kept := by
  obtain ⟨family, item⟩ := key
  cases family with
  | updateResponse => exact hkept _ h (by simp [workflowPurgePrefixes])
  | fleetEvent => exact hkept _ h (by simp [workflowPurgePrefixes])
  | _ => exact h

end Weft.Purge
