import Weft.Storage.Cursor
import Weft.Storage.Keys
import Weft.Lib.Machine

/-! The scheduler. Timers stand in five families of keys that sort by the time to fire; a tick
reads the due ones of each family up to a limit, offers them to the callback in the order of their
times, and deletes those whose callback returned in one batch at its end. -/

namespace Weft.Scheduler
open Weft.Js Weft.Storage Weft.Lib

universe v

/-! ## Timers -/

inductive TimerKind where
  | sleep
  | visibilityTimeout
  | executionDeadline
  | delayedStart
  | schedule
  | terminalCleanup
  | teardown
  | waitCondition
deriving DecidableEq

structure TimerEntry where
  id : JsString
  workflowId : JsString
  fireAt : Nat
  kind : TimerKind
deriving DecidableEq

/-- The families of keys that a tick scans. -/
inductive SourceName where
  | deadline
  | delayedStart
  | schedule
  | terminalCleanup
  | teardown
deriving DecidableEq

namespace SourceName

def all : List SourceName := [.deadline, .delayedStart, .schedule, .terminalCleanup, .teardown]

/-- What the keys of the family begin with. -/
def family : SourceName → JsString
  | .deadline => js "wf-deadline:"
  | .delayedStart => js "wf-delayed:"
  | .schedule => js "schedule-due:"
  | .terminalCleanup => js "wf-cleanup:"
  | .teardown => js "wf-teardown:"

def key : SourceName → Nat → Component → JsString
  | .deadline => KEYS.deadline
  | .delayedStart => KEYS.delayedStart
  | .schedule => KEYS.scheduleTick
  | .terminalCleanup => KEYS.terminalCleanup
  | .teardown => KEYS.teardownTimer

end SourceName

def timerIndexKey (timerId : JsString) : JsString := js "timer-idx:" ++ timerId

/-- `decodeEntry` is `none` for what `isTimerEntry` refuses, `decodeText` for what is no
string. -/
structure TimerCodec (V : Type v) where
  encodeEntry : TimerEntry → V
  decodeEntry : V → Option TimerEntry
  encodeText : JsString → V
  decodeText : V → Option JsString
  decodeEntry_encode : ∀ entry, decodeEntry (encodeEntry entry) = some entry
  decodeText_encode : ∀ text, decodeText (encodeText text) = some text
  /-- What `Number` makes of a text that is not made of digits alone, where that is a
  non-negative safe integer. -/
  numberLiteral : JsString → Option Nat

variable {V : Type v}

/-! ## Sources -/

structure ScannedTimerEntry where
  key : JsString
  entry : TimerEntry
deriving DecidableEq

/-- The time and the id are parts of the key, the value is the workflow id. -/
def readWorkflowTimerEntry (codec : TimerCodec V) (source : SourceName) (kind : TimerKind)
    (key : JsString) (value : V) : Option TimerEntry :=
  let rest := key.drop source.family.length
  let digits := rest.takeWhile fun u => u ≠ colon
  if colon ∈ rest then
    match safeNumber codec.numberLiteral digits,
      tryDecodeStorageKeyComponent (rest.drop (digits.length + 1)), codec.decodeText value with
    | some fireAt, some timerId, some workflowId => some ⟨timerId, workflowId, fireAt, kind⟩
    | _, _, _ => none
  else none

/-- `none` is a corrupted entry. -/
def readTimerEntry (codec : TimerCodec V) (source : SourceName) (key : JsString) (value : V) :
    Option TimerEntry :=
  match source with
  | .deadline | .delayedStart | .schedule => codec.decodeEntry value
  | .terminalCleanup => readWorkflowTimerEntry codec .terminalCleanup .terminalCleanup key value
  | .teardown => readWorkflowTimerEntry codec .teardown .teardown key value

/-- What the scan of a source at this time is asked for, apart from its limit. -/
def dueOptions (source : SourceName) (now : Nat) : ScanOptions :=
  { lt := some (resolvePrefixRangeEnd (source.key now Component.empty)) }

/-- `budget` is the number of rows that the scan may still yield. -/
structure TimerSource (V : Type v) where
  name : SourceName
  cursor : ScanCursor V
  budget : Nat
  next : Option ScannedTimerEntry := none

section

variable (codec : TimerCodec V) (now : Nat)

/-- Corrupted entries are deleted on the way. -/
def readNext (source : SourceName) :
    Nat → ScanCursor V → Store V → (Option ScannedTimerEntry × Nat × ScanCursor V) × Store V
  | 0, cursor, store => ((none, 0, cursor), store)
  | budget + 1, cursor, store =>
    match cursor.next store source.family (dueOptions source now) with
    | none => ((none, 0, cursor), store)
    | some ((key, value), cursor') =>
      match readTimerEntry codec source key value with
      | some entry => ((some ⟨key, entry⟩, budget, cursor'), store)
      | none => readNext source budget cursor' (store.delete key)

def advanceTimerSource (source : TimerSource V) (store : Store V) : TimerSource V × Store V :=
  let ((next, budget, cursor), after) := readNext codec now source.name source.budget source.cursor
    store
  ({ source with cursor := cursor, budget := budget, next := next }, after)

end

section

variable (localeCompare : JsString → JsString → Int)

def compareScannedTimerEntries (left right : ScannedTimerEntry) : Int :=
  if left.entry.fireAt ≠ right.entry.fireAt then
    (left.entry.fireAt : Int) - right.entry.fireAt
  else localeCompare left.key right.key

/-- The source to take from, with its place and the timer that stands first in it. -/
def selectFrom : Nat → Option (Nat × ScannedTimerEntry) → List (TimerSource V) →
    Option (Nat × ScannedTimerEntry)
  | _, selected, [] => selected
  | i, selected, source :: rest =>
    match source.next, selected with
    | none, _ => selectFrom (i + 1) selected rest
    | some next, none => selectFrom (i + 1) (some (i, next)) rest
    | some next, some (j, best) =>
      if compareScannedTimerEntries localeCompare next best < 0 then
        selectFrom (i + 1) (some (i, next)) rest
      else selectFrom (i + 1) (some (j, best)) rest

def selectNextTimerSource (sources : List (TimerSource V)) : Option (Nat × ScannedTimerEntry) :=
  selectFrom localeCompare 0 none sources

end

/-! ## Deferrals -/

structure TimerDeferral where
  attempts : Nat
  retryAt : Nat
deriving DecidableEq

abbrev Deferrals := OrderedStore JsString TimerDeferral

def MAX_TIMER_DEFERRAL_BACKOFF_MS : Nat := 30000

def timerDeferralBackoffMs (pollIntervalMs attempts : Nat) : Nat :=
  let exponent := min (attempts - 1) 30
  min (max pollIntervalMs 1 * 2 ^ exponent) MAX_TIMER_DEFERRAL_BACKOFF_MS

def isDeferred (deferred : Deferrals) (id : JsString) (now : Nat) : Bool :=
  (deferred.get id).any fun deferral => now < deferral.retryAt

def deferTimer (pollIntervalMs : Nat) (deferred : Deferrals) (entry : TimerEntry) (now : Nat) :
    Deferrals :=
  let attempts := ((deferred.get entry.id).elim 0 TimerDeferral.attempts) + 1
  deferred.put entry.id ⟨attempts, now + timerDeferralBackoffMs pollIntervalMs attempts⟩

def pruneDeferrals (deferred : Deferrals) (seenTimerIds : List JsString) (now : Nat) : Deferrals :=
  deferred.filter fun id => ¬ ((deferred.get id).any (fun deferral => deferral.retryAt ≤ now) ∧
    id ∉ seenTimerIds)

/-! ## A tick -/

inductive Outcome where
  | succeeded
  | deferred
  | failed
deriving DecidableEq

/-- What the callback does with each timer that is offered to it: how it ends, what it writes,
which deferrals it releases, and whether the scheduler is stopped meanwhile. -/
structure Callback (V : Type v) where
  outcome : ScannedTimerEntry → Outcome
  effect : ScannedTimerEntry → Store V → Store V
  released : ScannedTimerEntry → List JsString := fun _ => []
  stops : ScannedTimerEntry → Bool := fun _ => false

/-- What became of a timer that was read; `none` if it was skipped as deferred. `store` is what
the callback left. -/
structure Processed (V : Type v) where
  source : SourceName
  timer : ScannedTimerEntry
  outcome : Option Outcome
  store : Store V

/-- The settings of a scheduler and the storage it is on. -/
structure SchedulerOptions (V : Type v) where
  codec : TimerCodec V
  mode : ScanMode
  pollIntervalMs : Nat
  localeCompare : JsString → JsString → Int

structure State (V : Type v) where
  store : Store V
  deferredTimers : Deferrals := OrderedStore.empty
  stopped : Bool := false

/-- A tick under way. `processed` records the timers taken so far, oldest first. -/
structure Tick (V : Type v) extends State V where
  sources : List (TimerSource V)
  cleanupOperations : List (BatchOperation V) := []
  processed : List (Processed V) := []

def EXPIRED_TIMER_SCAN_LIMIT_PER_SOURCE : Nat := 1000

section

variable (scheduler : SchedulerOptions V) (callback : Callback V) (now : Nat)

def shouldDeleteTimerIndexWithoutLookup (entry : TimerEntry) : Bool :=
  entry.kind ≠ .schedule && entry.kind ≠ .terminalCleanup && entry.kind ≠ .teardown

/-- A schedule's timer is armed again under the same id: the index is deleted only where it still
names the timer that fired. -/
def buildTimerIndexDeleteOperation (store : Store V) (timer : ScannedTimerEntry) :
    List (BatchOperation V) :=
  let indexKey := timerIndexKey timer.entry.id
  if timer.entry.kind = .schedule then
    match store.get indexKey with
    | none => []
    | some bytes =>
      match scheduler.codec.decodeText bytes with
      | none => [.delete indexKey]
      | some text => if text = timer.key then [.delete indexKey] else []
  else if shouldDeleteTimerIndexWithoutLookup timer.entry then [.delete indexKey] else []

def buildTimerCleanupOperations (store : Store V) (timer : ScannedTimerEntry) :
    List (BatchOperation V) :=
  .delete timer.key :: buildTimerIndexDeleteOperation scheduler store timer

def releaseDeferredTimers (deferred : Deferrals) (ids : List JsString) : Deferrals :=
  deferred.filter fun id => id ∉ ids

def processSelectedTimer (s : Tick V) (source : SourceName) (timer : ScannedTimerEntry) : Tick V :=
  if isDeferred s.deferredTimers timer.entry.id now then
    { s with processed := s.processed ++ [⟨source, timer, none, s.store⟩] }
  else
    let store := callback.effect timer s.store
    let released := releaseDeferredTimers s.deferredTimers (callback.released timer)
    let s' : Tick V := { s with
      store := store
      stopped := s.stopped || callback.stops timer
      processed := s.processed ++ [⟨source, timer, some (callback.outcome timer), store⟩] }
    match callback.outcome timer with
    | .deferred =>
      { s' with deferredTimers := deferTimer scheduler.pollIntervalMs released timer.entry now }
    | .failed => { s' with deferredTimers := released }
    | .succeeded =>
      { s' with
        deferredTimers := released.delete timer.entry.id
        cleanupOperations :=
          s.cleanupOperations ++ buildTimerCleanupOperations scheduler store timer }

def advanceSource (s : Tick V) (i : Nat) : Tick V :=
  match s.sources[i]? with
  | none => s
  | some source =>
    let (source', store) := advanceTimerSource scheduler.codec now source s.store
    { s with store := store, sources := s.sources.set i source' }

/-- The loop over the timers that are due, for at most `fuel` of them. -/
def processTimers : Nat → Tick V → Tick V
  | 0, s => s
  | fuel + 1, s =>
    match selectNextTimerSource scheduler.localeCompare s.sources with
    | none => s
    | some (i, timer) =>
      if s.stopped then s
      else
        match s.sources[i]? with
        | none => s
        | some source =>
          processTimers fuel (advanceSource scheduler now
            (processSelectedTimer scheduler callback now s source.name timer) i)

def scanLimit (s : State V) : Nat :=
  EXPIRED_TIMER_SCAN_LIMIT_PER_SOURCE + s.deferredTimers.entries.length

/-- The five scans, none of which has been read. -/
def createTimerSources (s : State V) : List (TimerSource V) :=
  SourceName.all.map fun name =>
    { name := name
      cursor := openScan scheduler.mode s.store name.family (dueOptions name now)
      budget := scanLimit s }

/-- Each source reads its first timer. -/
def advanceAll : List (TimerSource V) → Store V → List (TimerSource V) × Store V
  | [], store => ([], store)
  | source :: rest, store =>
    let (source', store') := advanceTimerSource scheduler.codec now source store
    let (rest', store'') := advanceAll rest store'
    (source' :: rest', store'')

def startTick (s : State V) : Tick V :=
  let (sources, store) := advanceAll scheduler now (createTimerSources scheduler now s) s.store
  { s with store := store, sources := sources }

/-- The batch that deletes what fired; it leaves everything where it is if it is refused. -/
def deleteProcessedTimerKeys (s : Tick V) : Store V :=
  (batch s.store s.cleanupOperations).getD s.store

/-- `flush` does not heed `stop`; a tick does. -/
def runTick (s : State V) : Tick V :=
  processTimers scheduler callback now (SourceName.all.length * scanLimit s)
    (startTick scheduler now s)

def finishTick (s : Tick V) : State V :=
  { store := deleteProcessedTimerKeys s
    deferredTimers := if s.stopped then s.deferredTimers else
      pruneDeferrals s.deferredTimers (s.processed.map fun p => p.timer.entry.id) now
    stopped := s.stopped }

def tick (s : State V) : State V :=
  if s.stopped then s else finishTick now (runTick scheduler callback now s)

end

end Weft.Scheduler

/-! The keys of timers: they sort by time within a family, and a scan up to now reads those that
are due. -/

namespace Weft.Scheduler
open Weft.Js Weft.Storage Weft.Lib

universe v

variable {V : Type v}

theorem SourceName.key_eq (source : SourceName) (n : Nat) (c : Component) :
    source.key n c = source.family ++ (paddedNat 16 n ++ colon :: c.enc) := by
  cases source <;> exact List.append_assoc _ _ _

/-- A safe integer has at most sixteen digits. -/
theorem sixteen_digits_of_safe {n : Nat} (h : n ≤ maxSafeInteger) : n < 10 ^ 16 := by
  simp only [maxSafeInteger] at h
  omega

theorem SourceName.family_last (source : SourceName) : source.family.getLast? = some colon := by
  cases source <;> decide

variable {source other : SourceName}

theorem SourceName.family_apart (h : source ≠ other) : Apart source.family other.family := by
  revert source other
  have hall : ∀ source ∈ SourceName.all, ∀ other ∈ SourceName.all, source ≠ other →
      Apart source.family other.family := by decide
  have hmem : ∀ source : SourceName, source ∈ SourceName.all := by
    intro source
    cases source <;> decide
  intro source other hne
  exact hall source (hmem source) other (hmem other) hne

theorem SourceName.family_prefixed (source : SourceName) (n : Nat) (c : Component) :
    source.family <+: source.key n c := by
  rw [source.key_eq]
  exact List.prefix_append _ _

variable {n m : Nat} {c d : Component}

/-- A key belongs to one family. -/
theorem SourceName.eq_of_key (h : source.key n c = other.key m d) : source = other := by
  by_contra hne
  rw [source.key_eq, other.key_eq] at h
  exact ne_of_apart (family_apart hne) _ _ h

theorem indexKey_not_prefixed (source : SourceName) (id : JsString) :
    ¬ source.family <+: timerIndexKey id := by
  have hall : ∀ source ∈ SourceName.all, Apart source.family (js "timer-idx:") := by
    decide
  have hmem : source ∈ SourceName.all := by cases source <;> decide
  exact not_prefix_of_apart (hall source hmem) id

variable {source : SourceName}

/-- Where keys of a family are in order, so are their times. -/
theorem SourceName.fireAt_le_of_key_lt (hn : n < 10 ^ 16) (hm : m < 10 ^ 16)
    (h : source.key n c < source.key m d) : n ≤ m := by
  by_contra hlt
  have hgt : source.key m d < source.key n c := by
    rw [source.key_eq, source.key_eq, Lex.append_lt_append_iff]
    apply Lex.append_lt_append_of_length_eq
    · rw [length_paddedNat (by decide) hm, length_paddedNat (by decide) hn]
    · exact (paddedNat_lt_iff (by decide) hm hn).2 (by omega)
  exact lt_asymm h hgt

theorem SourceName.fireAt_eq_of_key (hn : n < 10 ^ 16) (hm : m < 10 ^ 16)
    (h : source.key n c = other.key m d) : n = m := by
  obtain rfl := SourceName.eq_of_key h
  rw [source.key_eq, source.key_eq] at h
  refine paddedNat_inj (List.append_inj_left (List.append_cancel_left h) ?_)
  rw [length_paddedNat (by decide) hn, length_paddedNat (by decide) hm]

theorem rangeEnd_empty (source : SourceName) (now : Nat) :
    resolvePrefixRangeEnd (source.key now Component.empty) =
      source.family ++ (paddedNat 16 now ++ [59]) := by
  have henc : Component.empty.enc = [] := rfl
  have hlast : (source.family ++ (paddedNat 16 now ++ [colon])).getLast? = some colon := by
    rw [← List.append_assoc]
    exact List.getLast?_concat
  have hdrop : (source.family ++ (paddedNat 16 now ++ [colon])).dropLast =
      source.family ++ paddedNat 16 now := by
    rw [← List.append_assoc]
    exact List.dropLast_concat
  rw [source.key_eq, henc, resolvePrefixRangeEnd, hlast]
  show _ ++ [codeUnit (colon.val + 1)] = _
  rw [hdrop, List.append_assoc]
  rfl

theorem matches_dueOptions (source : SourceName) (now : Nat) (k : JsString) :
    matchesScanOptions k (dueOptions source now) = true ↔
      k < source.family ++ (paddedNat 16 now ++ [59]) := by
  simp [matchesScanOptions, dueOptions, rangeEnd_empty]

theorem SourceName.due_of_matches {now n : Nat} {c : Component} (hn : n < 10 ^ 16)
    (h : matchesScanOptions (source.key n c) (dueOptions source now) = true) : n ≤ now := by
  by_contra hlt
  rw [matches_dueOptions, source.key_eq, Lex.append_lt_append_iff] at h
  have hgt : paddedNat 16 now ++ [59] < paddedNat 16 n ++ colon :: c.enc := by
    apply Lex.append_lt_append_of_length_eq
    · rw [length_paddedNat (by decide) hn, length_paddedNat (by decide) (by omega)]
    · exact (paddedNat_lt_iff (by decide) (by omega) hn).2 (by omega)
  exact lt_asymm h hgt

theorem SourceName.matches_of_due {now n : Nat} (c : Component) (hnow : now < 10 ^ 16)
    (h : n ≤ now) : matchesScanOptions (source.key n c) (dueOptions source now) = true := by
  rw [matches_dueOptions, source.key_eq, Lex.append_lt_append_iff]
  rcases h.eq_or_lt with rfl | hlt
  · rw [Lex.append_lt_append_iff, List.cons_lt_cons_iff]
    exact .inl (by decide)
  · apply Lex.append_lt_append_of_length_eq
    · rw [length_paddedNat (by decide) hnow, length_paddedNat (by decide) (by omega)]
    · exact (paddedNat_lt_iff (by decide) (by omega) hnow).2 hlt

/-! ## Stored timers -/

/-- The row is a timer that stands where its time and family put it. -/
def TimerAt (codec : TimerCodec V) (source : SourceName) (row : JsString × V) : Prop :=
  ∃ entry component, readTimerEntry codec source row.1 row.2 = some entry ∧
    row.1 = source.key entry.fireAt component ∧ entry.fireAt ≤ maxSafeInteger

/-- Every row in a family of timer keys has `R`. -/
def RowsStored (R : SourceName → JsString × V → Prop) (store : Store V) : Prop :=
  ∀ source k v, store.get k = some v → source.family <+: k → R source (k, v)

/-- What stands in the families of timer keys are timers. -/
def TimersStored (codec : TimerCodec V) (store : Store V) : Prop :=
  ∀ source k v, store.get k = some v → source.family <+: k → TimerAt codec source (k, v)

end Weft.Scheduler
