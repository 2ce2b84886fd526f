import Weft.Visibility.Indexes

/-! What a purge deletes, on the keys as they are stored. An id is percent-encoded, so a prefix that
ends its id with a colon takes no key of an id that extends it. -/

namespace Weft.Purge.Keys
open Weft.Js Weft.Lib Weft.Storage Weft.Visibility

universe u

variable {V : Type u}

namespace KEYS

def timeline (id : Component) (step : Int) : JsString :=
  js "wf:" ++ id.enc ++ js ":timeline:" ++ padStart (integerUnits step) 10 (digitUnit 0)

def update (id : Component) (updateId : JsString) : JsString :=
  js "upd:" ++ id.enc ++ colon :: updateId

def updateResponse (updateId : JsString) : JsString := js "upr:" ++ updateId

def fleetEvent (sequence : Nat) : JsString := js "fleet-event:" ++ paddedNat 10 sequence

def fleetEventByWorkflow (id : Component) (sequence : Nat) : JsString :=
  js "fleet-event-by-workflow:" ++ id.enc ++ colon :: paddedNat 10 sequence

def scheduleRunLink (id : Component) : JsString := js "schedule-run-link:" ++ id.enc

def scheduleRunBySchedule (scheduleId id : Component) : JsString :=
  js "schedule-run-by-schedule:" ++ scheduleId.enc ++ colon :: id.enc

def terminalWorkflow (updatedAt : JsNumber) (id : Component) : JsString :=
  js "wf-terminal:" ++ formatSortableTimestamp updatedAt ++ colon :: id.enc

def startIdempotency (key : Component) : JsString := js "start-idem:" ++ key.enc

def teardownDeadLetter (id : Component) : JsString := js "wf-teardown-deadletter:" ++ id.enc

end KEYS

/-- A family and what follows the id, for each prefix of `workflowPurgePrefixes`. -/
def historyFamilies : List (JsString × JsString) :=
  [(js "wf:", js "ckpt:"), (js "wf:", js "timeline:"), (js "ev:", []), (js "sig:", []),
    (js "review:", []), (js "offload:", []), (js "archive:", []), (js "blob:", []),
    (js "state:execution:", []), (js "tool-effect:", []), (js "upk:", []), (js "actrec:v1:", []),
    (js "async-act:v1:", []), (js "sigres:v1:", [])]

def workflowPurgePrefixes (id : Component) : List JsString :=
  historyFamilies.map fun f => f.1 ++ id.enc ++ colon :: f.2

/-- Families with one key for each workflow. -/
def singleFamilies : List JsString :=
  [js "wf:", js "wf-headers:", js "wf-cleanup-needed:", js "wf-concurrency-holder:",
    js "schedule-run:", js "wf-has-services:", js "wf-finalizer-state:", js "wf-teardown-needed:",
    js "wf-teardown-succeeded:", js "attr:", js "schedule-run-link:", js "wf-idx-manifest:"]

/-- What the purge is given: the state it read, and the timer of a terminal cleanup if the run has a
token for it. -/
structure PurgedRun where
  state : WorkflowState
  terminalCleanup : Option (JsNumber × Component) := none

/-- How the purge reads the records that name further keys. -/
structure PurgeDecoders (V : Type u) where
  /-- The name and the encoded value of each index row of an attribute record. -/
  attributeRows : V → List (JsString × JsString)
  /-- The schedule that launched the run. -/
  decodeScheduleRunMetadata : V → Option Component

variable (decoders : PurgeDecoders V)

def collectKeysForPrefix (s : Store V) (pre : JsString) : List JsString :=
  (scan s pre {}).map Prod.fst

def addUpdateRequestDeleteKeys (s : Store V) (id : Component) : List JsString :=
  (collectKeysForPrefix s (KEYS.update id [])).flatMap fun key =>
    let updateId := key.drop (KEYS.update id []).length
    key :: if updateId = [] then [] else [KEYS.updateResponse updateId]

def parseFleetEventSequence (rawSequence : JsString) : Option Nat :=
  if rawSequence ≠ [] ∧ rawSequence.all isDigitUnit ∧ numeralValue rawSequence ≤ maxSafeInteger then
    some (numeralValue rawSequence)
  else none

def fleetEventByWorkflowPrefix (id : Component) : JsString :=
  js "fleet-event-by-workflow:" ++ id.enc ++ [colon]

def addWorkflowLinkedFleetEventDeleteKeys (s : Store V) (id : Component) : List JsString :=
  (collectKeysForPrefix s (fleetEventByWorkflowPrefix id)).flatMap fun key =>
    key :: ((parseFleetEventSequence (key.drop (fleetEventByWorkflowPrefix id).length)).map
      KEYS.fleetEvent).toList

def addScheduleRunHistoryDeleteKeys (s : Store V) (id : Component) : List JsString :=
  ((s.get (KEYS.scheduleRunLink id)).bind decoders.decodeScheduleRunMetadata).toList.map
    fun scheduleId => KEYS.scheduleRunBySchedule scheduleId id

def buildSearchAttributeDeleteKeys (s : Store V) (id : Component) : List JsString :=
  ((s.get (Storage.KEYS.attributes id)).toList.flatMap decoders.attributeRows).map fun row =>
    Storage.KEYS.attributeIndex row.1 row.2 id

/-- The deadline is deleted under the id of the workflow. -/
def addExecutionDeadlineDeleteKeys (state : WorkflowState) : List JsString :=
  state.executionDeadline.toList.flatMap fun deadline =>
    [js "wf-deadline:" ++ formatSortableTimestamp deadline ++ colon :: state.id.enc,
      js "timer-idx:deadline:" ++ state.id.text]

def addTerminalCleanupDeleteKey (run : PurgedRun) : List JsString :=
  run.terminalCleanup.toList.map fun timer =>
    js "wf-cleanup:" ++ formatSortableTimestamp timer.1 ++ colon :: timer.2.enc

/-- `collectWorkflowPurgeRemainderOperations`. -/
def remainderKeys (s : Store V) (run : PurgedRun) : List JsString :=
  let state := run.state
  singleFamilies.map (· ++ state.id.enc) ++ [Storage.KEYS.checkpoint state.id] ++
    [KEYS.terminalWorkflow state.updatedAt state.id] ++
    (state.parentWorkflowId.toList.map fun parent =>
      Storage.KEYS.childWorkflowByParent parent state.parentWorkflowExecutionToken state.id) ++
    ((state.tags.getD []).map fun tag => Storage.KEYS.tagIndex tag state.id) ++
    deriveWorkflowVisibilityIndexKeys state ++ buildSearchAttributeDeleteKeys decoders s state.id ++
    addScheduleRunHistoryDeleteKeys decoders s state.id ++ addUpdateRequestDeleteKeys s state.id ++
    addWorkflowLinkedFleetEventDeleteKeys s state.id ++ addExecutionDeadlineDeleteKeys state ++
    addTerminalCleanupDeleteKey run

/-- The remainder is collected, the history deleted by its prefixes, and the remainder committed. -/
def purgeWorkflow (s : Store V) (run : PurgedRun) : Store V :=
  applyBatchOperations ((workflowPurgePrefixes run.state.id).foldl deletePrefix s)
    ((remainderKeys decoders s run).map .delete)

/-- A sweep purges one run after another. -/
def purgeAll (s : Store V) (runs : List PurgedRun) : Store V :=
  runs.foldl (purgeWorkflow decoders) s

/-! ## Whose key it is -/

/-- Families whose keys have the id of their workflow right after the family. -/
def ownFamilies : List JsString :=
  [js "wf:", js "ev:", js "sig:", js "review:", js "offload:", js "archive:", js "blob:",
    js "state:execution:", js "tool-effect:", js "upk:", js "actrec:v1:", js "async-act:v1:",
    js "sigres:v1:", js "wf-headers:", js "wf-cleanup-needed:", js "wf-concurrency-holder:",
    js "schedule-run:", js "wf-has-services:", js "wf-finalizer-state:", js "wf-teardown-needed:",
    js "wf-teardown-succeeded:", js "attr:", js "schedule-run-link:", js "wf-idx-manifest:",
    js "upd:", js "fleet-event-by-workflow:", js "sigseq:v1:", js "child-cancel:"]

/-- Families of index rows, which end with the id. -/
def indexFamilies : List JsString :=
  [js "wf-terminal:", js "child-by-parent:", js "tag:", js "wf-idx-status:", js "wf-idx-type:",
    js "wf-idx-created:", js "wf-idx-updated:", js "wf-idx-deadline:", js "idx:",
    js "schedule-run-by-schedule:", js "wf-delayed:"]

/-- Families whose keys the purge reaches through a record or a timer of the run. -/
def linkedFamilies : List JsString :=
  [js "upr:", js "fleet-event:", js "timer-idx:", js "wf-cleanup:", js "wf-deadline:"]

/-- Families of schedules, of the shared state of a workflow type, of the engine itself, and of
records that are kept after the run on purpose. -/
def sharedFamilies : List JsString :=
  [js "wf-teardown-deadletter:", js "schedule:", js "schedule-due:", js "start-idem:",
    js "state:workflow-scope:", js "wf-concurrency:", js "wf-teardown:", js "wf-idx-meta:",
    js "lease:", js "liveness:", js "fleet-event-tail", js "op:", js "audit:bulk:", js "budget:",
    js "budget-charged:"]

def families : List JsString := ownFamilies ++ indexFamilies ++ linkedFamilies ++ sharedFamilies

theorem families_apart : families.Pairwise Apart := by
  unfold families ownFamilies indexFamilies linkedFamilies sharedFamilies
  repeat rw [js_ofList]
  decide +kernel

theorem apart_of_mem {p q : JsString} (hp : p ∈ families) (hq : q ∈ families) (hne : p ≠ q) :
    Apart p q := by
  have : Std.Symm Apart := ⟨fun _ _ h => ⟨h.2, h.1⟩⟩
  exact families_apart.forall hp hq hne

theorem ne_of_mem {p q : JsString} (hp : p ∈ families) (hq : q ∈ families) (hne : p ≠ q)
    (x y : JsString) : p ++ x ≠ q ++ y :=
  ne_of_apart (apart_of_mem hp hq hne) x y

/-- The key belongs to the workflow. -/
inductive BelongsTo (id : Component) : JsString → Prop where
  | single (family : JsString) (h : family ∈ ownFamilies) : BelongsTo id (family ++ id.enc)
  | under (family : JsString) (h : family ∈ ownFamilies) (rest : JsString) :
      BelongsTo id (family ++ (id.enc ++ colon :: rest))
  | index (family : JsString) (h : family ∈ indexFamilies) (mid : JsString) :
      BelongsTo id (family ++ (mid ++ colon :: id.enc))

variable {f : JsString}

theorem own_mem (h : f ∈ ownFamilies) : f ∈ families := by
  simp only [families, List.mem_append]
  exact .inl (.inl (.inl h))

theorem index_mem (h : f ∈ indexFamilies) : f ∈ families := by
  simp only [families, List.mem_append]
  exact .inl (.inl (.inr h))

theorem linked_mem (h : f ∈ linkedFamilies) : f ∈ families := by
  simp only [families, List.mem_append]
  exact .inl (.inr h)

theorem shared_mem (h : f ∈ sharedFamilies) : f ∈ families := by
  simp only [families, List.mem_append]
  exact .inr h

/-- The kinds of families have no member in common. -/
theorem families_disjoint : ownFamilies.Disjoint indexFamilies ∧
    ownFamilies.Disjoint linkedFamilies ∧ ownFamilies.Disjoint sharedFamilies ∧
    indexFamilies.Disjoint linkedFamilies ∧ indexFamilies.Disjoint sharedFamilies ∧
    linkedFamilies.Disjoint sharedFamilies := by
  have hself (p : JsString) : ¬ Apart p p := fun h => h.1 p.prefix_refl
  obtain ⟨hthree, -, hshared⟩ := List.pairwise_append.1 families_apart
  obtain ⟨htwo, -, hlinked⟩ := List.pairwise_append.1 hthree
  obtain ⟨-, -, hindex⟩ := List.pairwise_append.1 htwo
  simp only [List.mem_append] at hshared hlinked
  exact ⟨fun p hp hq => hself p (hindex p hp p hq),
    fun p hp hq => hself p (hlinked p (.inl hp) p hq),
    fun p hp hq => hself p (hshared p (.inl (.inl hp)) p hq),
    fun p hp hq => hself p (hlinked p (.inr hp) p hq),
    fun p hp hq => hself p (hshared p (.inl (.inr hp)) p hq),
    fun p hp hq => hself p (hshared p (.inr hp) p hq)⟩

/-- What stands before the first colon. -/
theorem takeWhile_enc (id : Component) (rest : JsString) :
    (id.enc ++ colon :: rest).takeWhile (· ≠ colon) = id.enc := by
  rw [List.takeWhile_append_of_pos, List.takeWhile_cons_of_neg (by simp), List.append_nil]
  intro u hu
  rw [decide_eq_true_eq]
  rintro rfl
  exact id.colon_notMem hu

theorem takeWhile_enc_self (id : Component) : id.enc.takeWhile (· ≠ colon) = id.enc := by
  rw [List.takeWhile_eq_self_iff]
  intro u hu
  rw [decide_eq_true_eq]
  rintro rfl
  exact id.colon_notMem hu

variable {id : Component} {k : JsString}

/-- The family of a key of a workflow, and its id. -/
theorem BelongsTo.cases_own (h : BelongsTo id k) :
    (∃ family ∈ ownFamilies, ∃ x, k = family ++ x ∧ x.takeWhile (· ≠ colon) = id.enc) ∨
      ∃ family ∈ indexFamilies, ∃ x, k = family ++ x ∧ afterLastColon k = id.enc := by
  cases h with
  | single family hf => exact .inl ⟨family, hf, _, rfl, takeWhile_enc_self id⟩
  | under family hf rest => exact .inl ⟨family, hf, _, rfl, takeWhile_enc id rest⟩
  | index family hf mid =>
    refine .inr ⟨family, hf, _, rfl, ?_⟩
    rw [← List.append_assoc]
    exact afterLastColon_append id.colon_notMem _

/-- No key belongs to two workflows, whatever their ids are. -/
theorem BelongsTo.unique {i j : Component} (hi : BelongsTo i k) (hj : BelongsTo j k) : i = j := by
  obtain ⟨f, hf, x, hk, hx⟩ | ⟨f, hf, x, hk, hlast⟩ := hi.cases_own
  · obtain ⟨g, hg, y, hk', hy⟩ | ⟨g, hg, y, hk', -⟩ := hj.cases_own
    · by_cases hne : f = g
      · subst hne
        have hxy : x = y := List.append_cancel_left (hk.symm.trans hk')
        subst hxy
        exact Component.enc_injective (hx.symm.trans hy)
      · exact absurd (hk.symm.trans hk') (ne_of_mem (own_mem hf) (own_mem hg) hne x y)
    · have hne : f ≠ g := fun heq => families_disjoint.1 hf (heq ▸ hg)
      exact absurd (hk.symm.trans hk') (ne_of_mem (own_mem hf) (index_mem hg) hne x y)
  · obtain ⟨g, hg, y, hk', -⟩ | ⟨g, hg, y, hk', hlast'⟩ := hj.cases_own
    · have hne : f ≠ g := fun heq => families_disjoint.1 hg (heq ▸ hf)
      exact absurd (hk.symm.trans hk') (ne_of_mem (index_mem hf) (own_mem hg) hne x y)
    · exact Component.enc_injective (hlast.symm.trans hlast')

/-- A key of a workflow is in none of the other families. -/
theorem BelongsTo.ne_other (h : BelongsTo id k) {g : JsString}
    (hg : g ∈ linkedFamilies ∨ g ∈ sharedFamilies) (y : JsString) : k ≠ g ++ y := by
  obtain ⟨hown, hownl, howns, hindl, hinds, -⟩ := families_disjoint
  have hmem : g ∈ families := hg.elim linked_mem shared_mem
  obtain ⟨f, hf, x, rfl, -⟩ | ⟨f, hf, x, rfl, -⟩ := h.cases_own
  · refine ne_of_mem (own_mem hf) hmem ?_ x y
    rintro rfl
    exact hg.elim (hownl hf) (howns hf)
  · refine ne_of_mem (index_mem hf) hmem ?_ x y
    rintro rfl
    exact hg.elim (hindl hf) (hinds hf)

/-! ## What a purge deletes -/

theorem get_deletePrefix (s : Store V) {pre : JsString} (hlast : pre.getLast? = some colon)
    (k : JsString) : (deletePrefix s pre).get k = if pre <+: k then none else s.get k := by
  unfold deletePrefix
  rw [OrderedStore.get_filter]
  have hbetween := between_prefix_iff hlast (by decide) k
  by_cases h : pre <+: k
  · simp [h, hbetween.2 h]
  · have hnot := mt hbetween.1 h
    simp [h, hnot]

theorem getLast?_workflowPurgePrefixes {pre : JsString} (h : pre ∈ workflowPurgePrefixes id) :
    pre.getLast? = some colon := by
  obtain ⟨f, hf, rfl⟩ := List.mem_map.1 h
  have hall : ∀ f ∈ historyFamilies, (colon :: f.2).getLast? = some colon := by decide +kernel
  rw [List.getLast?_append, hall f hf]
  rfl

theorem get_deletePrefixes (s : Store V) {prefixes : List JsString}
    (hlast : ∀ pre ∈ prefixes, pre.getLast? = some colon) (k : JsString) :
    (prefixes.foldl deletePrefix s).get k =
      if ∃ pre ∈ prefixes, pre <+: k then none else s.get k := by
  induction prefixes generalizing s with
  | nil => simp
  | cons pre prefixes ih =>
    rw [List.foldl_cons, ih _ fun p hp => hlast p (List.mem_cons_of_mem _ hp),
      get_deletePrefix s (hlast pre List.mem_cons_self)]
    by_cases hrest : ∃ p ∈ prefixes, p <+: k
    · simp [hrest]
    · by_cases hpre : pre <+: k <;> simp [hrest, hpre]

/-- The keys that a purge deletes. -/
def Deletes (s : Store V) (run : PurgedRun) (k : JsString) : Prop :=
  (∃ pre ∈ workflowPurgePrefixes run.state.id, pre <+: k) ∨ k ∈ remainderKeys decoders s run

theorem get_purgeWorkflow (s : Store V) (run : PurgedRun) (k : JsString)
    [Decidable (Deletes decoders s run k)] :
    (purgeWorkflow decoders s run).get k = if Deletes decoders s run k then none else s.get k := by
  unfold purgeWorkflow
  rw [get_applyBatchOperations_deletes,
    get_deletePrefixes s fun pre hpre => getLast?_workflowPurgePrefixes hpre]
  by_cases hkey : k ∈ remainderKeys decoders s run
  · simp [hkey, Deletes]
  · by_cases hpre : ∃ pre ∈ workflowPurgePrefixes run.state.id, pre <+: k
    · simp [hpre, Deletes]
    · simp [hkey, hpre, Deletes]

/-- The key is reached through a record or a timer of the run. -/
def Linked (k : JsString) : Prop := ∃ g ∈ linkedFamilies, ∃ y, k = g ++ y

theorem belongsTo_prefixed (h : ∃ pre ∈ workflowPurgePrefixes id, pre <+: k) : BelongsTo id k := by
  obtain ⟨pre, hpre, rest, rfl⟩ := h
  obtain ⟨f, hf, rfl⟩ := List.mem_map.1 hpre
  have hall : ∀ f ∈ historyFamilies, f.1 ∈ ownFamilies := by simp [historyFamilies, ownFamilies]
  have heq : f.1 ++ id.enc ++ colon :: f.2 ++ rest = f.1 ++ (id.enc ++ colon :: (f.2 ++ rest)) := by
    simp only [List.append_assoc, List.cons_append]
  rw [heq]
  exact .under f.1 (hall f hf) _

theorem belongsTo_visibility {state : WorkflowState}
    (h : k ∈ deriveWorkflowVisibilityIndexKeys state) : BelongsTo state.id k := by
  unfold deriveWorkflowVisibilityIndexKeys at h
  rw [List.mem_insertionSort, List.mem_append] at h
  obtain hfixed | hdeadline := h
  · simp only [List.mem_cons, List.not_mem_nil, or_false] at hfixed
    obtain rfl | rfl | rfl | rfl := hfixed
    · exact .index (js "wf-idx-status:") (by simp [indexFamilies]) _
    · exact .index (js "wf-idx-type:") (by simp [indexFamilies]) _
    · exact .index (js "wf-idx-created:") (by simp [indexFamilies]) _
    · exact .index (js "wf-idx-updated:") (by simp [indexFamilies]) _
  · obtain ⟨deadline, -, rfl⟩ := List.mem_map.1 hdeadline
    exact .index (js "wf-idx-deadline:") (by simp [indexFamilies]) _

variable {s : Store V}

theorem mem_collectKeysForPrefix {pre k : JsString} (hlast : pre.getLast? = some colon) :
    k ∈ collectKeysForPrefix s pre ↔ (s.get k).isSome = true ∧ pre <+: k := by
  have hscan : ∀ v, (k, v) ∈ scan s pre {} ↔ s.get k = some v ∧ pre <+: k := by
    intro v
    rw [mem_scan (o := {}) hlast (by decide) rfl rfl]
    simp [matchesScanOptions]
  unfold collectKeysForPrefix
  constructor
  · intro h
    obtain ⟨⟨key, v⟩, hrow, rfl⟩ := List.mem_map.1 h
    obtain ⟨hget, hpre⟩ := (hscan v).1 hrow
    exact ⟨Option.isSome_iff_exists.2 ⟨v, hget⟩, hpre⟩
  · rintro ⟨hsome, hpre⟩
    obtain ⟨v, hget⟩ := Option.isSome_iff_exists.1 hsome
    exact List.mem_map.2 ⟨(k, v), (hscan v).2 ⟨hget, hpre⟩, rfl⟩

theorem getLast?_append_colon (x : JsString) : (x ++ [colon]).getLast? = some colon := by
  rw [List.getLast?_append]
  rfl

variable {run : PurgedRun}

theorem mem_remainderKeys :
    k ∈ remainderKeys decoders s run ↔ k ∈ singleFamilies.map (· ++ run.state.id.enc) ∨
      k ∈ [Storage.KEYS.checkpoint run.state.id] ∨
      k ∈ [KEYS.terminalWorkflow run.state.updatedAt run.state.id] ∨
      (k ∈ run.state.parentWorkflowId.toList.map fun parent =>
        Storage.KEYS.childWorkflowByParent parent run.state.parentWorkflowExecutionToken
          run.state.id) ∨
      (k ∈ (run.state.tags.getD []).map fun tag => Storage.KEYS.tagIndex tag run.state.id) ∨
      k ∈ deriveWorkflowVisibilityIndexKeys run.state ∨
      k ∈ buildSearchAttributeDeleteKeys decoders s run.state.id ∨
      k ∈ addScheduleRunHistoryDeleteKeys decoders s run.state.id ∨
      k ∈ addUpdateRequestDeleteKeys s run.state.id ∨
      k ∈ addWorkflowLinkedFleetEventDeleteKeys s run.state.id ∨
      k ∈ addExecutionDeadlineDeleteKeys run.state ∨ k ∈ addTerminalCleanupDeleteKey run := by
  unfold remainderKeys
  simp only [List.mem_append, or_assoc]

theorem update_eq (id : Component) (updateId : JsString) :
    KEYS.update id updateId = KEYS.update id [] ++ updateId := by
  simp [KEYS.update]

/-- The linked rows that the records of a run lead to: the responses of its stored requests, the
events of its stored links, and the rows that are named after its deadline and its cleanup. -/
inductive Reached (s : Store V) (run : PurgedRun) : JsString → Prop where
  | updateResponse (updateId : JsString)
      (h : (s.get (KEYS.update run.state.id updateId)).isSome = true) :
      Reached s run (KEYS.updateResponse updateId)
  | fleetEvent (rawSequence : JsString) (sequence : Nat)
      (h : (s.get (fleetEventByWorkflowPrefix run.state.id ++ rawSequence)).isSome = true)
      (hsequence : parseFleetEventSequence rawSequence = some sequence) :
      Reached s run (KEYS.fleetEvent sequence)
  | deadline (deadline : JsNumber) (h : run.state.executionDeadline = some deadline) :
      Reached s run
        (js "wf-deadline:" ++ formatSortableTimestamp deadline ++ colon :: run.state.id.enc)
  | deadlineTimer (h : run.state.executionDeadline.isSome = true) :
      Reached s run (js "timer-idx:deadline:" ++ run.state.id.text)
  | terminalCleanup (timer : JsNumber × Component) (h : run.terminalCleanup = some timer) :
      Reached s run
        (js "wf-cleanup:" ++ formatSortableTimestamp timer.1 ++ colon :: timer.2.enc)

theorem Reached.linked (h : Reached s run k) : Linked k := by
  cases h with
  | updateResponse updateId _ => exact ⟨js "upr:", by simp [linkedFamilies], _, rfl⟩
  | fleetEvent _ sequence _ _ => exact ⟨js "fleet-event:", by simp [linkedFamilies], _, rfl⟩
  | deadline deadline _ =>
    exact ⟨js "wf-deadline:", by simp [linkedFamilies], _, List.append_assoc _ _ _⟩
  | deadlineTimer _ =>
    refine ⟨js "timer-idx:", by simp [linkedFamilies], js "deadline:" ++ run.state.id.text, ?_⟩
    rw [← List.append_assoc]
    rfl
  | terminalCleanup timer _ =>
    exact ⟨js "wf-cleanup:", by simp [linkedFamilies], _, List.append_assoc _ _ _⟩

/-- What a purge deletes belongs to its workflow or is reached from its records. -/
theorem deletes_own (h : Deletes decoders s run k) :
    BelongsTo run.state.id k ∨ Reached s run k := by
  obtain hpre | hkey := h
  · exact .inl (belongsTo_prefixed hpre)
  rw [mem_remainderKeys] at hkey
  obtain hkey | hkey | hkey | hkey | hkey | hkey | hkey | hkey | hkey | hkey | hkey | hkey := hkey
  · obtain ⟨family, hfamily, rfl⟩ := List.mem_map.1 hkey
    have hall : ∀ f ∈ singleFamilies, f ∈ ownFamilies := by simp [singleFamilies, ownFamilies]
    exact .inl (.single family (hall family hfamily))
  · obtain rfl := List.mem_singleton.1 hkey
    refine .inl ?_
    have heq : Storage.KEYS.checkpoint run.state.id =
        js "wf:" ++ (run.state.id.enc ++ colon :: js "ckpt") := by
      unfold Storage.KEYS.checkpoint
      rw [List.append_assoc]
      rfl
    rw [heq]
    exact .under (js "wf:") (by simp [ownFamilies]) _
  · obtain rfl := List.mem_singleton.1 hkey
    exact .inl (.index (js "wf-terminal:") (by simp [indexFamilies]) _)
  · obtain ⟨parent, -, rfl⟩ := List.mem_map.1 hkey
    refine .inl ?_
    cases run.state.parentWorkflowExecutionToken with
    | none => exact .index (js "child-by-parent:") (by simp [indexFamilies]) parent.enc
    | some token =>
      have heq : Storage.KEYS.childWorkflowByParent parent (some token) run.state.id =
          js "child-by-parent:" ++ ((parent.enc ++ colon :: token.enc) ++
            colon :: run.state.id.enc) := by
        simp [Storage.KEYS.childWorkflowByParent]
      rw [heq]
      exact .index (js "child-by-parent:") (by simp [indexFamilies]) _
  · obtain ⟨tag, -, rfl⟩ := List.mem_map.1 hkey
    exact .inl (.index (js "tag:") (by simp [indexFamilies]) _)
  · exact .inl (belongsTo_visibility hkey)
  · obtain ⟨row, -, rfl⟩ := List.mem_map.1 hkey
    have heq : Storage.KEYS.attributeIndex row.1 row.2 run.state.id =
        js "idx:" ++ ((row.1 ++ colon :: row.2) ++ colon :: run.state.id.enc) := by
      simp [Storage.KEYS.attributeIndex]
    rw [heq]
    exact .inl (.index (js "idx:") (by simp [indexFamilies]) _)
  · obtain ⟨scheduleId, -, rfl⟩ := List.mem_map.1 hkey
    exact .inl (.index (js "schedule-run-by-schedule:") (by simp [indexFamilies]) _)
  · obtain ⟨key, hrow, hkey⟩ := List.mem_flatMap.1 hkey
    have hlast : (KEYS.update run.state.id []).getLast? = some colon := getLast?_append_colon _
    obtain ⟨hstored, rest, rfl⟩ := (mem_collectKeysForPrefix hlast).1 hrow
    obtain rfl | hresponse := List.mem_cons.1 hkey
    · have heq : KEYS.update run.state.id [] ++ rest =
          js "upd:" ++ (run.state.id.enc ++ colon :: rest) := by
        simp [KEYS.update]
      rw [heq]
      exact .inl (.under (js "upd:") (by simp [ownFamilies]) _)
    · rw [List.drop_left] at hresponse
      split at hresponse
      · cases hresponse
      · obtain rfl := List.mem_singleton.1 hresponse
        exact .inr (.updateResponse rest (by rwa [update_eq]))
  · obtain ⟨key, hrow, hkey⟩ := List.mem_flatMap.1 hkey
    have hlast : (fleetEventByWorkflowPrefix run.state.id).getLast? = some colon :=
      getLast?_append_colon _
    obtain ⟨hstored, rest, rfl⟩ := (mem_collectKeysForPrefix hlast).1 hrow
    obtain rfl | hevent := List.mem_cons.1 hkey
    · have heq : fleetEventByWorkflowPrefix run.state.id ++ rest =
          js "fleet-event-by-workflow:" ++ (run.state.id.enc ++ colon :: rest) := by
        simp [fleetEventByWorkflowPrefix]
      rw [heq]
      exact .inl (.under (js "fleet-event-by-workflow:") (by simp [ownFamilies]) _)
    · rw [List.drop_left] at hevent
      obtain ⟨sequence, hsequence, rfl⟩ := Option.map_eq_some_iff.1 (Option.mem_toList.1 hevent)
      exact .inr (.fleetEvent rest sequence hstored hsequence)
  · obtain ⟨deadline, hdeadline, hkey⟩ := List.mem_flatMap.1 hkey
    have hsome := Option.mem_toList.1 hdeadline
    simp only [List.mem_cons, List.not_mem_nil, or_false] at hkey
    obtain rfl | rfl := hkey
    · exact .inr (.deadline deadline hsome)
    · exact .inr (.deadlineTimer (Option.isSome_of_mem hsome))
  · obtain ⟨timer, htimer, rfl⟩ := List.mem_map.1 hkey
    exact .inr (.terminalCleanup timer (Option.mem_toList.1 htimer))

theorem get_purgeWorkflow_of_deletes (h : Deletes decoders s run k) :
    (purgeWorkflow decoders s run).get k = none := by
  classical
  rw [get_purgeWorkflow, if_pos h]

theorem get_purgeWorkflow_of_not (h : ¬ Deletes decoders s run k) :
    (purgeWorkflow decoders s run).get k = s.get k := by
  classical
  rw [get_purgeWorkflow, if_neg h]

theorem purgeAll_cons (s : Store V) (run : PurgedRun) (runs : List PurgedRun) :
    purgeAll decoders s (run :: runs) = purgeAll decoders (purgeWorkflow decoders s run) runs :=
  List.foldl_cons ..

/-- A purge writes nothing. -/
theorem get_purgeWorkflow_of_none (h : s.get k = none) (run : PurgedRun) :
    (purgeWorkflow decoders s run).get k = none := by
  by_cases hdeletes : Deletes decoders s run k
  · exact get_purgeWorkflow_of_deletes decoders hdeletes
  · rw [get_purgeWorkflow_of_not decoders hdeletes, h]

theorem get_purgeAll_of_none (h : s.get k = none) (runs : List PurgedRun) :
    (purgeAll decoders s runs).get k = none := by
  induction runs generalizing s with
  | nil => exact h
  | cons run runs ih =>
    rw [purgeAll_cons]
    exact ih (get_purgeWorkflow_of_none decoders h run)

theorem deletes_history (s : Store V) (run : PurgedRun) {family suffix : JsString}
    (h : (family, suffix) ∈ historyFamilies) (rest : JsString) :
    Deletes decoders s run (family ++ run.state.id.enc ++ colon :: (suffix ++ rest)) := by
  refine .inl ⟨_, List.mem_map_of_mem h, rest, ?_⟩
  simp only [List.append_assoc, List.cons_append]

theorem parseFleetEventSequence_padded {sequence : Nat} (hsafe : sequence ≤ maxSafeInteger) :
    parseFleetEventSequence (paddedNat 10 sequence) = some sequence := by
  have hdigits : (paddedNat 10 sequence).all isDigitUnit = true := by
    rw [List.all_eq_true]
    intro u hu
    obtain ⟨d, hd, rfl⟩ := mem_paddedNat hu
    have hall : ∀ m : Fin 10, isDigitUnit (digitUnit m.val) = true := by decide
    exact hall ⟨d, hd⟩
  unfold parseFleetEventSequence
  rw [numeralValue_paddedNat, if_pos ⟨paddedNat_ne_nil 10 sequence, hdigits, hsafe⟩]

/-- A key that is not stored needs no delete. -/
theorem get_purgeWorkflow_of_stored
    (h : (s.get k).isSome = true → k ∈ remainderKeys decoders s run) :
    (purgeWorkflow decoders s run).get k = none := by
  by_cases hsome : (s.get k).isSome = true
  · exact get_purgeWorkflow_of_deletes decoders (.inr (h hsome))
  · rw [Bool.not_eq_true, Option.isSome_eq_false_iff, Option.isNone_iff_eq_none] at hsome
    exact get_purgeWorkflow_of_none decoders hsome run

theorem fleetEventByWorkflow_eq (id : Component) (sequence : Nat) :
    KEYS.fleetEventByWorkflow id sequence =
      fleetEventByWorkflowPrefix id ++ paddedNat 10 sequence := by
  simp [KEYS.fleetEventByWorkflow, fleetEventByWorkflowPrefix]

/-- The scan for requests finds a request that is stored. -/
theorem mem_scan_update {updateId : JsString}
    (h : (s.get (KEYS.update id updateId)).isSome = true) :
    KEYS.update id updateId ∈ collectKeysForPrefix s (KEYS.update id []) := by
  have hlast : (KEYS.update id []).getLast? = some colon := getLast?_append_colon _
  exact (mem_collectKeysForPrefix hlast).2 ⟨h, updateId, (update_eq id updateId).symm⟩

theorem mem_scan_fleetEvent {sequence : Nat}
    (h : (s.get (KEYS.fleetEventByWorkflow id sequence)).isSome = true) :
    KEYS.fleetEventByWorkflow id sequence ∈
      collectKeysForPrefix s (fleetEventByWorkflowPrefix id) := by
  have hlast : (fleetEventByWorkflowPrefix id).getLast? = some colon := getLast?_append_colon _
  exact (mem_collectKeysForPrefix hlast).2
    ⟨h, paddedNat 10 sequence, (fleetEventByWorkflow_eq id sequence).symm⟩

end Weft.Purge.Keys
