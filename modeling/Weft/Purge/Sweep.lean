import Weft.Storage.Registry

/-! The retention sweep. It walks the terminal index, whose keys are ordered by the time of the last
update, up to the latest time at which some retention may have run out, and checks each state there
against the retention of its own type and status. -/

namespace Weft.Purge.Sweep
open Weft.Js Weft.Lib Weft.Storage Weft.Visibility Weft.Purge.Keys

structure NormalizedRetentionPolicy where
  completed : Option Nat := none
  failed : Option Nat := none
  cancelled : Option Nat := none
  timedOut : Option Nat := none

/-- The engine-wide retention, and the registrations of the workflow types with theirs. -/
structure Engine where
  retention : Option NormalizedRetentionPolicy := none
  registrations : List (JsString × Option NormalizedRetentionPolicy) := []

structure WorkflowState where
  id : Component
  type : JsString
  status : WorkflowStatus
  updatedAt : Nat
  updatedAt_le : updatedAt ≤ maxSafeInteger

structure Store where
  workflow : Component → Option WorkflowState
  teardownOwed : Component → Bool
  terminalRows : List JsString

def isTerminalWorkflowStatus : WorkflowStatus → Bool
  | .completed | .failed | .cancelled | .timedOut => true
  | _ => false

def resolveRetentionForStatus (policy : Option NormalizedRetentionPolicy) :
    WorkflowStatus → Option Nat
  | .completed => policy.bind (·.completed)
  | .failed => policy.bind (·.failed)
  | .cancelled => policy.bind (·.cancelled)
  | .timedOut => policy.bind (·.timedOut)
  | _ => none

namespace Engine

variable (engine : Engine)

/-- `internals.registrations.get(state.type)?.retention ?? internals.options.retention` -/
def policyOf (type : JsString) : Option NormalizedRetentionPolicy :=
  (((engine.registrations.find? fun r => r.1 = type).bind Prod.snd) <|> engine.retention)

def getWorkflowRetentionDeadline (state : WorkflowState) : Option Nat :=
  if isTerminalWorkflowStatus state.status then
    (resolveRetentionForStatus (engine.policyOf state.type) state.status).map (state.updatedAt + ·)
  else none

/-- The retentions that `considerRetentionPolicy` is given. -/
def consideredRetentions : List Nat :=
  let policies := engine.retention.toList ++ engine.registrations.filterMap Prod.snd
  policies.flatMap fun policy =>
    [policy.completed, policy.failed, policy.cancelled, policy.timedOut].filterMap id

def getMinimumRetentionMs : Option Nat := engine.consideredRetentions.min?

def shouldPurgeWorkflowState (store : Store) (now : Nat) (state : WorkflowState) : Bool :=
  isTerminalWorkflowStatus state.status && !store.teardownOwed state.id &&
    (engine.getWorkflowRetentionDeadline state).any (· ≤ now)

end Engine

def terminalRow (state : WorkflowState) : JsString :=
  KEYS.terminalWorkflow (.ofNat state.updatedAt) state.id

def upperBound (newestPossibleExpiredUpdatedAt : Int) : JsString :=
  js "wf-terminal:" ++ padStart (integerUnits newestPossibleExpiredUpdatedAt) 16 (digitUnit 0) ++
    [colon, codeUnit 255]

/-- What the clock gives. -/
def Timestamp : Type := { n : Nat // n ≤ maxSafeInteger }

/-- How the purge of one workflow ends. -/
inductive PurgeOutcome where
  | purged
  | failed
  | deposed
deriving DecidableEq

/-- The workflows that were purged and those whose purge failed, in order. A sweep that was deposed
threw. -/
structure PurgeResult where
  deleted : List Component := []
  failed : List Component := []
  deposed : Bool := false

def Store.withoutRow (store : Store) (key : JsString) : Store :=
  { store with terminalRows := store.terminalRows.erase key }

def Store.withoutWorkflow (store : Store) (state : WorkflowState) : Store where
  workflow := Function.update store.workflow state.id none
  teardownOwed := Function.update store.teardownOwed state.id false
  terminalRows := store.terminalRows.erase (terminalRow state)

section

variable (engine : Engine) (now : Nat) (limit : Option Nat) (purge : Component → PurgeOutcome)

/-- The loop over the scanned rows. -/
def sweepRows : List JsString → Store → PurgeResult → PurgeResult × Store
  | [], store, result => (result, store)
  | key :: rows, store, result =>
    match (tryDecodeStorageKeyComponent (afterLastColon key)).bind Component.of? with
    | none => sweepRows rows store result
    | some workflowId =>
      match store.workflow workflowId with
      | none => sweepRows rows (store.withoutRow key) result
      | some state =>
        if engine.shouldPurgeWorkflowState store now state then
          match purge state.id with
          | .deposed => ({ result with deposed := true }, store)
          | .failed => sweepRows rows store { result with failed := result.failed ++ [state.id] }
          | .purged =>
            let deleted := result.deleted ++ [state.id]
            if ∃ n ∈ limit, n ≤ deleted.length then
              ({ result with deleted := deleted }, store.withoutWorkflow state)
            else sweepRows rows (store.withoutWorkflow state) { result with deleted := deleted }
        else sweepRows rows store result

/-- A sweep with `expiredOnly` and without a filter. -/
def purgeInternal (store : Store) : PurgeResult × Store :=
  if limit = some 0 then ({}, store)
  else
    match engine.getMinimumRetentionMs with
    | none => ({}, store)
    | some minimumRetentionMs =>
      let rows := store.terminalRows.filter (· ≤ upperBound ((now : Int) - minimumRetentionMs))
      sweepRows engine now limit purge rows store {}

end

/-- The rows of the terminal index are those of the terminal workflows, in the order of the keys. -/
structure Indexed (store : Store) (terminal : List WorkflowState) : Prop where
  rows : store.terminalRows = terminal.map terminalRow
  sorted : store.terminalRows.Pairwise (· ≤ ·)
  distinct : (terminal.map (·.id)).Nodup
  mem_iff : ∀ state, state ∈ terminal ↔
    store.workflow state.id = some state ∧ isTerminalWorkflowStatus state.status

/-- Terminal, owing no finalizer, and past its own retention deadline. -/
def Expired (engine : Engine) (store : Store) (now : Nat) (state : WorkflowState) : Prop :=
  store.workflow state.id = some state ∧ isTerminalWorkflowStatus state.status ∧
    store.teardownOwed state.id = false ∧
    ∃ deadline ∈ engine.getWorkflowRetentionDeadline state, deadline ≤ now

def takeLimit (limit : Option Nat) (ids : List Component) : List Component :=
  match limit with
  | none => ids
  | some n => ids.take n

/-! ## The bound -/

variable {engine : Engine} {store : Store} {now : Nat} {state : WorkflowState}

theorem terminalRow_le_upperBound {newest : Nat} (hnewest : newest ≤ maxSafeInteger)
    (h : state.updatedAt ≤ newest) : terminalRow state ≤ upperBound newest := by
  have hwidth {n : Nat} (hn : n ≤ maxSafeInteger) : n < 10 ^ 16 :=
    hn.trans_lt (by decide)
  have htext : padStart (integerUnits newest) 16 (digitUnit 0) = paddedNat 16 newest := by
    rw [integerUnits, if_neg (by omega), Int.natAbs_natCast, paddedNat]
  unfold terminalRow upperBound KEYS.terminalWorkflow
  rw [htext, formatSortableTimestamp_ofNat (hwidth state.updatedAt_le), List.append_assoc,
    List.append_assoc, Lex.append_le_append_iff]
  obtain hlt | heq := h.lt_or_eq
  · refine (Lex.append_lt_append_of_length_eq ?_ ?_ _ _).le
    · rw [length_paddedNat (by decide) (hwidth state.updatedAt_le),
        length_paddedNat (by decide) (hwidth hnewest)]
    · exact (paddedNat_lt_iff (by decide) (hwidth state.updatedAt_le) (hwidth hnewest)).2 hlt
  · rw [heq, Lex.append_le_append_iff]
    have henc : state.id.enc ≤ [codeUnit 255] := by
      cases hid : state.id.enc with
      | nil => exact Lex.nil_le _
      | cons c rest =>
        have hc := (state.id.enc_units (u := c) (by rw [hid]; exact List.mem_cons_self)).1
        have hlt : c < codeUnit 255 := by
          rw [Fin.lt_def, codeUnit_val (by decide)]
          omega
        exact (List.cons_lt_cons_iff.2 (.inl hlt)).le
    exact (Lex.append_le_append_iff [colon] _ _).2 henc

theorem mem_consideredRetentions {retention : Nat}
    (h : resolveRetentionForStatus (engine.policyOf state.type) state.status = some retention) :
    retention ∈ engine.consideredRetentions := by
  obtain ⟨policy, hpolicy, hvalue⟩ : ∃ policy, engine.policyOf state.type = some policy ∧
      some retention ∈ [policy.completed, policy.failed, policy.cancelled, policy.timedOut] := by
    cases hp : engine.policyOf state.type with
    | none => cases hs : state.status <;> simp [hp, hs, resolveRetentionForStatus] at h
    | some policy =>
      refine ⟨policy, rfl, ?_⟩
      cases hs : state.status <;> simp [hp, hs, resolveRetentionForStatus] at h <;> simp [h]
  have hmem : policy ∈ engine.retention.toList ++ engine.registrations.filterMap Prod.snd := by
    unfold Engine.policyOf at hpolicy
    obtain hown | ⟨-, hengine⟩ := (Option.orElse_eq_some ..).1 hpolicy
    · obtain ⟨registration, hfind, hsnd⟩ := Option.bind_eq_some_iff.1 hown
      exact List.mem_append_right _
        (List.mem_filterMap.2 ⟨registration, List.mem_of_find?_eq_some hfind, hsnd⟩)
    · exact List.mem_append_left _ (Option.mem_toList.2 hengine)
  exact List.mem_flatMap.2 ⟨policy, hmem, List.mem_filterMap.2 ⟨_, hvalue, rfl⟩⟩

/-- No retention that counts is below the minimum. -/
theorem minimum_le {retention : Nat}
    (h : resolveRetentionForStatus (engine.policyOf state.type) state.status = some retention) :
    ∃ minimum ≤ retention, engine.getMinimumRetentionMs = some minimum := by
  have hmem := mem_consideredRetentions h
  cases hmin : engine.getMinimumRetentionMs with
  | none =>
    rw [List.min?_eq_none_iff.1 hmin] at hmem
    cases hmem
  | some minimum => exact ⟨minimum, (List.min?_eq_some_iff.1 hmin).2 retention hmem, rfl⟩

theorem shouldPurge_iff (hstored : store.workflow state.id = some state) :
    engine.shouldPurgeWorkflowState store now state = true ↔ Expired engine store now state := by
  simp only [Engine.shouldPurgeWorkflowState, Expired, hstored, Bool.and_eq_true, Bool.not_eq_true',
    Option.any_eq_true, decide_eq_true_eq, true_and, and_assoc, Option.mem_def]

/-- An expired workflow is among the rows that are scanned. -/
theorem Expired.row_le (h : Expired engine store now state) (hnow : now ≤ maxSafeInteger) :
    ∃ minimum, engine.getMinimumRetentionMs = some minimum ∧
      terminalRow state ≤ upperBound ((now : Int) - minimum) := by
  obtain ⟨-, hterminal, -, deadline, hdeadline, hle⟩ := h
  rw [Engine.getWorkflowRetentionDeadline, if_pos hterminal] at hdeadline
  obtain ⟨retention, hretention, rfl⟩ := Option.map_eq_some_iff.1 hdeadline
  obtain ⟨minimum, hmin, heq⟩ := minimum_le hretention
  refine ⟨minimum, heq, ?_⟩
  rw [show (now : Int) - minimum = ((now - minimum : Nat) : Int) by omega]
  exact terminalRow_le_upperBound (by omega) (by omega)

/-! ## The loop -/

variable {limit : Option Nat} {purge : Component → PurgeOutcome}

theorem rowId_terminalRow (state : WorkflowState) :
    (tryDecodeStorageKeyComponent (afterLastColon (terminalRow state))).bind Component.of? =
      some state.id := by
  unfold terminalRow KEYS.terminalWorkflow tryDecodeStorageKeyComponent
  rw [afterLastColon_append state.id.colon_notMem, Component.decode_enc]
  exact state.id.of?_text

/-- The store still has these workflows, and those of them that are due. -/
def Holds (engine : Engine) (now : Nat) (due : WorkflowState → Bool) (store : Store)
    (states : List WorkflowState) : Prop :=
  ∀ state ∈ states, store.workflow state.id = some state ∧
    engine.shouldPurgeWorkflowState store now state = due state

variable {due : WorkflowState → Bool} {states : List WorkflowState}

theorem Holds.withoutWorkflow (h : Holds engine now due store states)
    (hother : state.id ∉ states.map (·.id)) :
    Holds engine now due (store.withoutWorkflow state) states := by
  intro other hmem
  have hne : other.id ≠ state.id := fun heq => hother (List.mem_map.2 ⟨other, hmem, heq⟩)
  obtain ⟨hstored, hdue⟩ := h other hmem
  refine ⟨(Function.update_of_ne hne _ _).trans hstored, ?_⟩
  rw [← hdue]
  unfold Engine.shouldPurgeWorkflowState Store.withoutWorkflow
  dsimp only
  rw [Function.update_of_ne hne]

/-- One row of a workflow that is there. -/
theorem sweepRows_cons (hstored : store.workflow state.id = some state) (rows : List JsString)
    (result : PurgeResult) :
    sweepRows engine now limit purge (terminalRow state :: rows) store result =
      if engine.shouldPurgeWorkflowState store now state then
        match purge state.id with
        | .deposed => ({ result with deposed := true }, store)
        | .failed => sweepRows engine now limit purge rows store
            { result with failed := result.failed ++ [state.id] }
        | .purged =>
          let deleted := result.deleted ++ [state.id]
          if ∃ n ∈ limit, n ≤ deleted.length then
            ({ result with deleted := deleted }, store.withoutWorkflow state)
          else sweepRows engine now limit purge rows (store.withoutWorkflow state)
            { result with deleted := deleted }
      else sweepRows engine now limit purge rows store result := by
  rw [sweepRows, rowId_terminalRow]
  dsimp only
  rw [hstored]

/-- Only what is due is tried. -/
theorem sweepRows_only (h : Holds engine now due store states)
    (hdistinct : (states.map (·.id)).Nodup) (result : PurgeResult) {id : Component}
    (hid : id ∈ (sweepRows engine now limit purge (states.map terminalRow) store result).1.deleted ∨
      id ∈ (sweepRows engine now limit purge (states.map terminalRow) store result).1.failed) :
    (id ∈ result.deleted ∨ id ∈ result.failed) ∨ id ∈ (states.filter due).map (·.id) := by
  induction states generalizing store result with
  | nil => exact .inl hid
  | cons state states ih =>
    obtain ⟨hstored, hdue⟩ := h state List.mem_cons_self
    have hrest : Holds engine now due store states :=
      fun other hmem => h other (List.mem_cons_of_mem _ hmem)
    obtain ⟨hother, hdistinct⟩ := List.nodup_cons.1 hdistinct
    rw [List.map_cons, sweepRows_cons hstored, hdue] at hid
    rw [List.filter_cons]
    split at hid
    · rename_i hdue
      rw [if_pos hdue, List.map_cons]
      split at hid
      · exact .inl hid
      · obtain (hdeleted | hfailed) | hlater := ih hrest hdistinct _ hid
        · exact .inl (.inl hdeleted)
        · obtain hbefore | hhere := List.mem_append.1 hfailed
          · exact .inl (.inr hbefore)
          · exact .inr (List.mem_cons.2 (.inl (List.mem_singleton.1 hhere)))
        · exact .inr (List.mem_cons_of_mem _ hlater)
      · have hhere {id : Component} (hdeleted : id ∈ result.deleted ++ [state.id]) :
            (id ∈ result.deleted ∨ id ∈ result.failed) ∨
              id ∈ state.id :: (states.filter due).map (·.id) := by
          obtain hbefore | hhere := List.mem_append.1 hdeleted
          · exact .inl (.inl hbefore)
          · exact .inr (List.mem_cons.2 (.inl (List.mem_singleton.1 hhere)))
        dsimp only at hid
        split at hid
        · obtain hdeleted | hfailed := hid
          · exact hhere hdeleted
          · exact .inl (.inr hfailed)
        · obtain (hdeleted | hfailed) | hlater :=
            ih (hrest.withoutWorkflow hother) hdistinct _ hid
          · exact hhere hdeleted
          · exact .inl (.inr hfailed)
          · exact .inr (List.mem_cons_of_mem _ hlater)
    · rename_i hdue
      rw [if_neg hdue]
      exact ih hrest hdistinct result hid

theorem takeLimit_of_lt {ids : List Component} (h : ∀ n ∈ limit, ids.length < n) :
    takeLimit limit ids = ids := by
  cases limit with
  | none => rfl
  | some n => exact List.take_of_length_le (h n rfl).le

/-- Without a deposition, what is purged is what is due and can be purged, up to the limit. -/
theorem sweepRows_deleted (h : Holds engine now due store states)
    (hdistinct : (states.map (·.id)).Nodup) (result : PurgeResult)
    (hlimit : ∀ n ∈ limit, result.deleted.length < n)
    (hpurge : ∀ state ∈ states, due state = true → purge state.id ≠ .deposed) :
    (sweepRows engine now limit purge (states.map terminalRow) store result).1.deleted =
      takeLimit limit (result.deleted ++
        ((states.filter due).map (·.id)).filter (purge · = .purged)) := by
  induction states generalizing store result with
  | nil => simpa [sweepRows] using (takeLimit_of_lt hlimit).symm
  | cons state states ih =>
    obtain ⟨hstored, hdue⟩ := h state List.mem_cons_self
    have hrest : Holds engine now due store states :=
      fun other hmem => h other (List.mem_cons_of_mem _ hmem)
    have hpurge' := fun other hmem => hpurge other (List.mem_cons_of_mem _ hmem)
    obtain ⟨hother, hdistinct⟩ := List.nodup_cons.1 hdistinct
    rw [List.map_cons, sweepRows_cons hstored, hdue, List.filter_cons]
    split
    · rename_i hdue
      rw [List.map_cons]
      split
      · exact absurd ‹_› (hpurge state List.mem_cons_self hdue)
      · rename_i hfailed
        rw [List.filter_cons_of_neg (by simp [hfailed])]
        exact ih hrest hdistinct _ hlimit hpurge'
      · rename_i hpurged
        rw [List.filter_cons_of_pos (by simp [hpurged])]
        change _ = takeLimit limit (result.deleted ++ ([state.id] ++ _))
        rw [← List.append_assoc]
        dsimp only
        split
        · rename_i hreached
          obtain ⟨n, rfl, hn⟩ := hreached
          have hlt := hlimit n rfl
          have hlength : (result.deleted ++ [state.id]).length = n := by
            rw [List.length_append, List.length_singleton] at hn ⊢
            omega
          exact (List.take_left' hlength).symm
        · rename_i hbelow
          refine ih (hrest.withoutWorkflow hother) hdistinct _ (fun n hn => ?_) hpurge'
          exact not_le.1 fun hle => hbelow ⟨n, hn, hle⟩
    · exact ih hrest hdistinct result hlimit hpurge'

/-! ## Sweeps -/

variable {terminal : List WorkflowState}

/-- The rows that are scanned are those of the first terminal workflows, and none that has expired
is left out. -/
theorem scanned_rows (hindexed : Indexed store terminal) (hnow : now ≤ maxSafeInteger)
    {minimum : Nat} (hminimum : engine.getMinimumRetentionMs = some minimum) :
    let scanned := terminal.filter fun state =>
      terminalRow state ≤ upperBound ((now : Int) - minimum)
    store.terminalRows.filter (· ≤ upperBound ((now : Int) - minimum)) = scanned.map terminalRow ∧
      scanned.filter (engine.shouldPurgeWorkflowState store now) =
        terminal.filter (engine.shouldPurgeWorkflowState store now) := by
  dsimp only
  constructor
  · rw [hindexed.rows, List.filter_map]
    rfl
  · rw [List.filter_filter]
    refine List.filter_congr fun state hmem => ?_
    cases hdue : engine.shouldPurgeWorkflowState store now state with
    | false => rfl
    | true =>
      have hexpired := (shouldPurge_iff ((hindexed.mem_iff state).1 hmem).1).1 hdue
      obtain ⟨minimum', heq, hle⟩ := hexpired.row_le hnow
      cases hminimum.symm.trans heq
      simp [hle]

theorem mem_expired_iff (hindexed : Indexed store terminal) :
    state ∈ terminal.filter (engine.shouldPurgeWorkflowState store now) ↔
      Expired engine store now state := by
  rw [List.mem_filter]
  constructor
  · rintro ⟨hmem, hdue⟩
    exact (shouldPurge_iff ((hindexed.mem_iff state).1 hmem).1).1 hdue
  · intro h
    exact ⟨(hindexed.mem_iff state).2 ⟨h.1, h.2.1⟩, (shouldPurge_iff h.1).2 h⟩

/-- A sweep is over at once, as nothing is to be purged, or it is the loop over a part of the index
that has all expired workflows. -/
theorem purgeInternal_cases (limit : Option Nat) (purge : Component → PurgeOutcome)
    (hindexed : Indexed store terminal) (hnow : now ≤ maxSafeInteger) :
    let expired := terminal.filter (engine.shouldPurgeWorkflowState store now)
    ((purgeInternal engine now limit purge store).1 = {} ∧ (limit = some 0 ∨ expired = [])) ∨
    ∃ scanned : List WorkflowState, (scanned.map (·.id)).Nodup ∧
      Holds engine now (engine.shouldPurgeWorkflowState store now) store scanned ∧
      scanned.filter (engine.shouldPurgeWorkflowState store now) = expired ∧
      (∀ n ∈ limit, 0 < n) ∧ purgeInternal engine now limit purge store =
        sweepRows engine now limit purge (scanned.map terminalRow) store {} := by
  dsimp only
  unfold purgeInternal
  split
  · rename_i hzero
    exact .inl ⟨rfl, .inl hzero⟩
  · rename_i hlimit
    split
    · rename_i hnone
      refine .inl ⟨rfl, .inr (List.eq_nil_iff_forall_not_mem.2 fun state hmem => ?_)⟩
      obtain ⟨minimum, hsome, -⟩ := ((mem_expired_iff hindexed).1 hmem).row_le hnow
      cases hnone.symm.trans hsome
    · rename_i minimum hminimum
      obtain ⟨hrows, hexpired⟩ := scanned_rows hindexed hnow hminimum
      refine .inr ⟨_, (List.filter_sublist.map _).nodup hindexed.distinct, fun state hmem => ?_,
        hexpired, fun n hn => ?_, by rw [hrows]⟩
      · exact ⟨((hindexed.mem_iff state).1 (List.mem_of_mem_filter hmem)).1, rfl⟩
      · refine Nat.pos_of_ne_zero ?_
        rintro rfl
        exact hlimit hn

/-- A sweep purges expired workflows only. Where it is not deposed, it purges those whose purge
succeeds, in the order of the index, up to the limit. -/
theorem retention_sweep_exact {terminal : List WorkflowState} (hindexed : Indexed store terminal)
    (engine : Engine) (now : Timestamp) (limit : Option Nat) (purge : Component → PurgeOutcome) :
    let swept := (purgeInternal engine now.1 limit purge store).1
    let expired := terminal.filter (engine.shouldPurgeWorkflowState store now.1)
    (∀ state, state ∈ expired ↔ Expired engine store now.1 state) ∧
    (∀ id, id ∈ swept.deleted ∨ id ∈ swept.failed → id ∈ expired.map (·.id)) ∧
    ((∀ state ∈ expired, purge state.id ≠ .deposed) →
      swept.deleted = takeLimit limit ((expired.map (·.id)).filter (purge · = .purged))) ∧
    ((∀ state ∈ expired, purge state.id = .purged) →
      swept.deleted.length = limit.elim expired.length (min · expired.length)) := by
  dsimp only
  have hdeleted (hpurge : ∀ state ∈ terminal.filter (engine.shouldPurgeWorkflowState store now.1),
      purge state.id ≠ .deposed) :
      (purgeInternal engine now.1 limit purge store).1.deleted = takeLimit limit
        (((terminal.filter (engine.shouldPurgeWorkflowState store now.1)).map (·.id)).filter
          (purge · = .purged)) := by
    obtain ⟨hswept, hzero | hnil⟩ | ⟨scanned, hdistinct, hholds, hexpired, hlimit, hswept⟩ :=
      purgeInternal_cases limit purge hindexed now.2
    · rw [hswept, hzero]
      rfl
    · rw [hswept, hnil]
      cases limit <;> simp [takeLimit]
    · rw [hswept, sweepRows_deleted hholds hdistinct {} hlimit, hexpired, List.nil_append]
      intro state hmem hdue
      exact hpurge state (hexpired ▸ List.mem_filter.2 ⟨hmem, hdue⟩)
  refine ⟨fun state => mem_expired_iff hindexed, fun id hid => ?_, hdeleted, fun hpurged => ?_⟩
  · obtain ⟨hswept, -⟩ | ⟨scanned, hdistinct, hholds, hexpired, -, hswept⟩ :=
      purgeInternal_cases limit purge hindexed now.2
    · rw [hswept] at hid
      simp at hid
    · rw [hswept] at hid
      rw [← hexpired]
      exact (sweepRows_only hholds hdistinct {} hid).resolve_left (by simp)
  · rw [hdeleted fun state hmem => by simp [hpurged state hmem], List.filter_eq_self.2]
    · cases limit <;> simp [takeLimit]
    · rintro id hid
      obtain ⟨state, hmem, rfl⟩ := List.mem_map.1 hid
      simpa using hpurged state hmem

/-! ## Two workflows -/

def firstRun : Component := ⟨js "run-1", isSome_encode_run⟩

def secondRun : Component := ⟨js "run-2", isSome_encode_next_run⟩

/-- Completed at the given id. -/
def completedAt (id : Component) : WorkflowState where
  id := id
  type := js "order"
  status := .completed
  updatedAt := 5
  updatedAt_le := by decide

def twoCompleted : Store where
  workflow id := if id = firstRun ∨ id = secondRun then some (completedAt id) else none
  teardownOwed _ := false
  terminalRows := [completedAt firstRun, completedAt secondRun].map terminalRow

def tenMilliseconds : Engine where
  retention := some { completed := some 10 }

theorem indexed_twoCompleted :
    Indexed twoCompleted [completedAt firstRun, completedAt secondRun] where
  rows := rfl
  sorted := by decide +kernel
  distinct := by decide
  mem_iff state := by
    constructor
    · intro hmem
      obtain rfl | hmem := List.mem_cons.1 hmem
      · exact ⟨rfl, rfl⟩
      · obtain rfl := List.mem_singleton.1 hmem
        exact ⟨rfl, rfl⟩
    · rintro ⟨hstored, -⟩
      unfold twoCompleted at hstored
      dsimp only at hstored
      split at hstored
      · rename_i hid
        obtain heq | heq := hid
        · rw [heq] at hstored
          cases hstored
          exact List.mem_cons_self
        · rw [heq] at hstored
          cases hstored
          exact List.mem_cons_of_mem _ List.mem_cons_self
      · cases hstored

theorem retention_sweep_exact_two :
    Indexed twoCompleted [completedAt firstRun, completedAt secondRun] ∧
      (purgeInternal tenMilliseconds 15 none (fun _ => .purged) twoCompleted).1.deleted.length =
        2 :=
  ⟨indexed_twoCompleted,
    (retention_sweep_exact indexed_twoCompleted tenMilliseconds ⟨15, by decide⟩ none
      fun _ => .purged).2.2.2 fun _ _ => rfl⟩

/-- The purge of the first workflow finds the engine deposed, and the second one is not reached. -/
theorem deposed_sweep_stops :
    let purge := fun id => if id = firstRun then PurgeOutcome.deposed else .purged
    let swept := (purgeInternal tenMilliseconds 15 none purge twoCompleted).1
    Expired tenMilliseconds twoCompleted 15 (completedAt secondRun) ∧
      secondRun ∉ swept.deleted ∧ secondRun ∉ swept.failed := by
  refine ⟨⟨rfl, rfl, rfl, 15, rfl, le_rfl⟩, ?_⟩
  decide +kernel

end Weft.Purge.Sweep
