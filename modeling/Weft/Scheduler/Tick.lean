import Weft.Scheduler.Model
import Weft.Lib.Lists

/-! One tick: the loop takes the timers of all sources in the order of their times and takes none
twice, whatever the callbacks write meanwhile. -/

namespace Weft.Scheduler
open Weft.Js Weft.Storage Weft.Lib

universe v

variable {V : Type v}

/-! ## Sources -/

/-- A timer of the source that is due. -/
def DueTimer (source : SourceName) (now : Nat) (timer : ScannedTimerEntry) : Prop :=
  ∃ component, timer.key = source.key timer.entry.fireAt component ∧
    timer.entry.fireAt ≤ maxSafeInteger ∧ timer.entry.fireAt ≤ now

/-- What the scan of a source yields, where every row has `R`. -/
def DueRow (R : SourceName → JsString × V → Prop) (source : SourceName) (now : Nat)
    (row : JsString × V) : Prop :=
  R source row ∧ matchesScanOptions row.1 (dueOptions source now) = true

/-- The timer was read from such a row. -/
def ReadTimer (codec : TimerCodec V) (R : SourceName → JsString × V → Prop) (source : SourceName)
    (now : Nat) (timer : ScannedTimerEntry) : Prop :=
  ∃ v, DueRow R source now (timer.key, v) ∧
    readTimerEntry codec source timer.key v = some timer.entry

/-- The cursor of the source has nothing to yield but such rows above `bound`. -/
def TimerSource.From (R : SourceName → JsString × V → Prop) (now : Nat) (source : TimerSource V)
    (bound : Option JsString) : Prop :=
  source.cursor.From source.name.family (dueOptions source.name now) (DueRow R source.name now)
    bound

/-- `R` holds of timers only. -/
def OfTimers (codec : TimerCodec V) (R : SourceName → JsString × V → Prop) : Prop :=
  ∀ source row, R source row → TimerAt codec source row

theorem ofTimers_timerAt (codec : TimerCodec V) : OfTimers codec (TimerAt codec) :=
  fun _ _ h => h

variable {codec : TimerCodec V} {R : SourceName → JsString × V → Prop} {now : Nat}
  {store : Store V}

theorem RowsStored.dueRow (h : RowsStored R store) (source : SourceName) :
    ∀ k v, store.get k = some v → source.family <+: k →
      matchesScanOptions k (dueOptions source now) = true → DueRow R source now (k, v) :=
  fun k v hget hpre hmatch => ⟨h source k v hget hpre, hmatch⟩

theorem ReadTimer.dueTimer {source : SourceName} {timer : ScannedTimerEntry}
    (h : ReadTimer codec R source now timer) (hR : OfTimers codec R) :
    DueTimer source now timer := by
  obtain ⟨v, ⟨hrow, hmatch⟩, hread⟩ := h
  obtain ⟨entry, component, hread', hkey, hsafe⟩ := hR source _ hrow
  obtain rfl := Option.some.inj (hread'.symm.trans hread)
  refine ⟨component, hkey, hsafe, ?_⟩
  rw [show timer.key = source.key timer.entry.fireAt component from hkey] at hmatch
  exact SourceName.due_of_matches (sixteen_digits_of_safe hsafe) hmatch

/-- The source has read its next timer, if the scan has one and may still yield it. -/
def Advanced (codec : TimerCodec V) (R : SourceName → JsString × V → Prop) (now : Nat)
    (store : Store V) (bound : Option JsString) (source source' : TimerSource V) : Prop :=
  source'.name = source.name ∧
    ((source'.next = none ∧ source'.budget = 0 ∧ (source.budget = 0 ∨
        source.cursor.next store source.name.family (dueOptions source.name now) = none)) ∨
      ∃ row entry, source.cursor.next store source.name.family (dueOptions source.name now) =
          some (row, source'.cursor) ∧ source.budget = source'.budget + 1 ∧
        source'.next = some ⟨row.1, entry⟩ ∧ bound.all (· < row.1) ∧
        ReadTimer codec R source.name now ⟨row.1, entry⟩ ∧ source'.From R now (some row.1))

/-- The next timer of a source, where what it scans are timers. -/
theorem advanceTimerSource_cases (hR : OfTimers codec R) (hstored : RowsStored R store)
    {source : TimerSource V} {bound : Option JsString} (hfrom : source.From R now bound) :
    ∃ source', advanceTimerSource codec now source store = (source', store) ∧
      Advanced codec R now store bound source source' := by
  unfold advanceTimerSource
  cases hbudget : source.budget with
  | zero => exact ⟨_, rfl, rfl, .inl ⟨rfl, rfl, .inl hbudget⟩⟩
  | succ budget =>
    cases hnext : source.cursor.next store source.name.family (dueOptions source.name now) with
    | none =>
      simp only [readNext, hnext]
      exact ⟨_, rfl, rfl, .inl ⟨rfl, rfl, .inr hnext⟩⟩
    | some found =>
      obtain ⟨row, cursor⟩ := found
      obtain ⟨hbound, hrow, hcursor⟩ := ScanCursor.from_next source.name.family_last (by decide)
        rfl rfl (hstored.dueRow source.name) hfrom hnext
      obtain ⟨entry, component, hread, hkey, hsafe⟩ := hR _ _ hrow.1
      simp only [readNext, hnext, hread]
      exact ⟨_, rfl, rfl, .inr ⟨row, entry, hnext, hbudget, rfl, hbound, ⟨row.2, hrow, hread⟩,
        hcursor⟩⟩

/-! ## Selection -/

section

variable {localeCompare : JsString → JsString → Int}

theorem fireAt_le_of_compare {left right : ScannedTimerEntry}
    (h : compareScannedTimerEntries localeCompare left right < 0) :
    left.entry.fireAt ≤ right.entry.fireAt := by
  unfold compareScannedTimerEntries at h
  split_ifs at h with hne
  · omega
  · rw [ne_eq, not_not] at hne
    exact hne.le

theorem fireAt_le_of_not_compare {left right : ScannedTimerEntry}
    (h : ¬ compareScannedTimerEntries localeCompare left right < 0) :
    right.entry.fireAt ≤ left.entry.fireAt := by
  unfold compareScannedTimerEntries at h
  split_ifs at h with hne
  · omega
  · rw [ne_eq, not_not] at hne
    exact hne.ge

/-- The selected timer stands first in its source, and no source has an earlier one. -/
def SelectedFrom (sources : List (TimerSource V)) : Option (Nat × ScannedTimerEntry) → Prop
  | none => ∀ source ∈ sources, source.next = none
  | some (i, timer) => (∃ source, sources[i]? = some source ∧ source.next = some timer) ∧
      ∀ source ∈ sources, ∀ other ∈ source.next, timer.entry.fireAt ≤ other.entry.fireAt

theorem selectFrom_selected (before rest : List (TimerSource V))
    {selected : Option (Nat × ScannedTimerEntry)} (h : SelectedFrom before selected) :
    SelectedFrom (before ++ rest) (selectFrom localeCompare before.length selected rest) := by
  induction rest generalizing before selected with
  | nil => rwa [List.append_nil]
  | cons source rest ih =>
    have hnew : (before ++ [source])[before.length]? = some source := by simp
    have hold : ∀ (i : Nat) source', before[i]? = some source' →
        (before ++ [source])[i]? = some source' := by
      intro i source' hi
      rw [List.getElem?_append_left (List.getElem?_eq_some_iff.1 hi).1, hi]
    have hstep : ∀ selected', SelectedFrom (before ++ [source]) selected' →
        SelectedFrom (before ++ source :: rest)
          (selectFrom localeCompare (before.length + 1) selected' rest) := by
      intro selected' hselected
      have hrest := ih (before ++ [source]) hselected
      rwa [List.length_append, List.length_singleton, List.append_assoc,
        List.singleton_append] at hrest
    cases hnext : source.next with
    | none =>
      simp only [selectFrom, hnext]
      refine hstep _ ?_
      cases selected with
      | none =>
        intro source' hmem
        rcases List.mem_append.1 hmem with hmem | hmem
        · exact h source' hmem
        · rwa [List.mem_singleton.1 hmem]
      | some found =>
        obtain ⟨⟨source', hi, hsource'⟩, hfirst⟩ := h
        refine ⟨⟨source', hold _ _ hi, hsource'⟩, fun other hmem entry hentry => ?_⟩
        rcases List.mem_append.1 hmem with hmem | hmem
        · exact hfirst other hmem entry hentry
        · rw [List.mem_singleton.1 hmem, hnext] at hentry
          cases hentry
    | some timer =>
      have hself : ∀ entry ∈ source.next, timer.entry.fireAt ≤ entry.entry.fireAt := by
        intro entry hentry
        rw [hnext] at hentry
        rw [Option.some.inj hentry]
      cases selected with
      | none =>
        simp only [selectFrom, hnext]
        refine hstep _ ⟨⟨source, hnew, hnext⟩, fun other hmem entry hentry => ?_⟩
        rcases List.mem_append.1 hmem with hmem | hmem
        · rw [h other hmem] at hentry
          cases hentry
        · exact hself entry (List.mem_singleton.1 hmem ▸ hentry)
      | some found =>
        obtain ⟨j, best⟩ := found
        obtain ⟨⟨source', hi, hsource'⟩, hfirst⟩ := h
        simp only [selectFrom, hnext]
        split_ifs with hcompare
        · have hle := fireAt_le_of_compare hcompare
          refine hstep _ ⟨⟨source, hnew, hnext⟩, fun other hmem entry hentry => ?_⟩
          rcases List.mem_append.1 hmem with hmem | hmem
          · exact hle.trans (hfirst other hmem entry hentry)
          · exact hself entry (List.mem_singleton.1 hmem ▸ hentry)
        · have hle := fireAt_le_of_not_compare hcompare
          refine hstep _ ⟨⟨source', hold _ _ hi, hsource'⟩, fun other hmem entry hentry => ?_⟩
          rcases List.mem_append.1 hmem with hmem | hmem
          · exact hfirst other hmem entry hentry
          · exact hle.trans (hself entry (List.mem_singleton.1 hmem ▸ hentry))

theorem selectNextTimerSource_selected (localeCompare : JsString → JsString → Int)
    (sources : List (TimerSource V)) : SelectedFrom sources
      (selectNextTimerSource localeCompare sources) :=
  selectFrom_selected [] sources (by simp [SelectedFrom])

end

/-! ## One timer -/

variable {scheduler : SchedulerOptions V} {callback : Callback V} {s : Tick V}

/-- The deletes that a timer adds to the batch of its tick. -/
def cleanupOf (scheduler : SchedulerOptions V) (p : Processed V) : List (BatchOperation V) :=
  if p.outcome = some .succeeded then buildTimerCleanupOperations scheduler p.store p.timer else []

def deferralsAfter (scheduler : SchedulerOptions V) (callback : Callback V) (now : Nat)
    (deferred : Deferrals) (timer : ScannedTimerEntry) : Deferrals :=
  let released := releaseDeferredTimers deferred (callback.released timer)
  match callback.outcome timer with
  | .deferred => deferTimer scheduler.pollIntervalMs released timer.entry now
  | .failed => released
  | .succeeded => released.delete timer.entry.id

theorem processSelectedTimer_cases (scheduler : SchedulerOptions V) (callback : Callback V)
    (now : Nat) (s : Tick V) (source : SourceName) (timer : ScannedTimerEntry) :
    ∃ p : Processed V, p.source = source ∧ p.timer = timer ∧
      (processSelectedTimer scheduler callback now s source timer).processed = s.processed ++ [p] ∧
      (processSelectedTimer scheduler callback now s source timer).sources = s.sources ∧
      (processSelectedTimer scheduler callback now s source timer).store = p.store ∧
      (processSelectedTimer scheduler callback now s source timer).cleanupOperations =
        s.cleanupOperations ++ cleanupOf scheduler p ∧
      ((isDeferred s.deferredTimers timer.entry.id now = true ∧ p.outcome = none ∧
          p.store = s.store ∧
          (processSelectedTimer scheduler callback now s source timer).deferredTimers =
            s.deferredTimers ∧
          (processSelectedTimer scheduler callback now s source timer).stopped = s.stopped) ∨
        (isDeferred s.deferredTimers timer.entry.id now = false ∧
          p.outcome = some (callback.outcome timer) ∧ p.store = callback.effect timer s.store ∧
          (processSelectedTimer scheduler callback now s source timer).deferredTimers =
            deferralsAfter scheduler callback now s.deferredTimers timer ∧
          (processSelectedTimer scheduler callback now s source timer).stopped =
            (s.stopped || callback.stops timer))) := by
  unfold processSelectedTimer
  split_ifs with hdeferred
  · exact ⟨⟨source, timer, none, s.store⟩, rfl, rfl, rfl, rfl, rfl, (List.append_nil _).symm,
      .inl ⟨hdeferred, rfl, rfl, rfl, rfl⟩⟩
  · have hnot : isDeferred s.deferredTimers timer.entry.id now = false := by simpa using hdeferred
    refine ⟨⟨source, timer, some (callback.outcome timer), callback.effect timer s.store⟩,
      rfl, rfl, ?_⟩
    cases houtcome : callback.outcome timer with
    | succeeded =>
      refine ⟨rfl, rfl, rfl, rfl, .inr ⟨hnot, rfl, rfl, ?_, rfl⟩⟩
      simp only [deferralsAfter, houtcome]
    | deferred =>
      refine ⟨rfl, rfl, rfl, (List.append_nil _).symm, .inr ⟨hnot, rfl, rfl, ?_, rfl⟩⟩
      simp only [deferralsAfter, houtcome]
    | failed =>
      refine ⟨rfl, rfl, rfl, (List.append_nil _).symm, .inr ⟨hnot, rfl, rfl, ?_, rfl⟩⟩
      simp only [deferralsAfter, houtcome]

/-! ## The loop -/

/-- One round of the loop: the timer is processed and its source reads the next one. -/
def takeTimer (scheduler : SchedulerOptions V) (callback : Callback V) (now : Nat) (s : Tick V)
    (i : Nat) (source : TimerSource V) (timer : ScannedTimerEntry) : Tick V :=
  advanceSource scheduler now (processSelectedTimer scheduler callback now s source.name timer) i

/-- What the loop keeps: the sources hold due timers in order, what was taken stands before what
is left, and nothing was taken twice. -/
structure Merged (scheduler : SchedulerOptions V) (R : SourceName → JsString × V → Prop)
    (now : Nat) (s : Tick V) : Prop where
  ofTimers : OfTimers scheduler.codec R
  stored : RowsStored R s.store
  names : s.sources.map TimerSource.name = SourceName.all
  heads : ∀ source ∈ s.sources, ∀ timer ∈ source.next,
    ReadTimer scheduler.codec R source.name now timer ∧ source.From R now (some timer.key)
  taken : ∀ p ∈ s.processed, ReadTimer scheduler.codec R p.source now p.timer
  behind : ∀ p ∈ s.processed, ∀ source ∈ s.sources, ∀ timer ∈ source.next,
    p.timer.entry.fireAt ≤ timer.entry.fireAt ∧ (p.source = source.name → p.timer.key < timer.key)
  ordered : s.processed.Pairwise fun p q =>
    p.timer.entry.fireAt ≤ q.timer.entry.fireAt ∧ p.timer.key ≠ q.timer.key
  cleanup : s.cleanupOperations = s.processed.flatMap (cleanupOf scheduler)

/-- The callback leaves rows with `R` in the families of timer keys. -/
def Callback.KeepsRows (R : SourceName → JsString × V → Prop) (callback : Callback V) : Prop :=
  ∀ timer store, RowsStored R store → RowsStored R (callback.effect timer store)

/-- The callback leaves no timers but such as are armed. -/
def Callback.KeepsTimers (codec : TimerCodec V) (callback : Callback V) : Prop :=
  ∀ timer store, TimersStored codec store → TimersStored codec (callback.effect timer store)

theorem DueTimer.fireAt_le {source : SourceName} {timer next : ScannedTimerEntry}
    (h : DueTimer source now timer) (h' : DueTimer source now next) (hlt : timer.key < next.key) :
    timer.entry.fireAt ≤ next.entry.fireAt := by
  obtain ⟨c, hkey, hsafe, -⟩ := h
  obtain ⟨d, hkey', hsafe', -⟩ := h'
  rw [hkey, hkey'] at hlt
  exact SourceName.fireAt_le_of_key_lt (sixteen_digits_of_safe hsafe)
    (sixteen_digits_of_safe hsafe') hlt

theorem DueTimer.source_eq {source other : SourceName} {timer next : ScannedTimerEntry}
    (h : DueTimer source now timer) (h' : DueTimer other now next) (heq : timer.key = next.key) :
    source = other := by
  obtain ⟨c, hkey, -⟩ := h
  obtain ⟨d, hkey', -⟩ := h'
  rw [hkey, hkey'] at heq
  exact SourceName.eq_of_key heq

theorem Merged.name_ne (h : Merged scheduler R now s) {i j : Nat} {source other : TimerSource V}
    (hi : s.sources[i]? = some source) (hj : s.sources[j]? = some other) (hne : j ≠ i) :
    other.name ≠ source.name := by
  intro heq
  have hnodup : (s.sources.map TimerSource.name).Nodup := by
    rw [h.names]
    decide
  obtain ⟨hi', hgi⟩ := List.getElem?_eq_some_iff.1 hi
  obtain ⟨hj', hgj⟩ := List.getElem?_eq_some_iff.1 hj
  have hfin := (hnodup.get_inj_iff (i := ⟨j, by simpa using hj'⟩) (j := ⟨i, by simpa using hi'⟩)).1
    (by simp [hgi, hgj, heq])
  exact hne (congrArg Fin.val hfin)

/-- What one round does, where the callback leaves timers in the store. -/
theorem Merged.takeTimer_cases (h : Merged scheduler R now s)
    (hcallback : callback.KeepsRows R) {i : Nat} {source : TimerSource V}
    (hi : s.sources[i]? = some source) {timer : ScannedTimerEntry}
    (hnext : source.next = some timer) : ∃ p source', p.source = source.name ∧ p.timer = timer ∧
      RowsStored R p.store ∧ takeTimer scheduler callback now s i source timer =
        { (processSelectedTimer scheduler callback now s source.name timer) with
          sources := s.sources.set i source' } ∧
      (processSelectedTimer scheduler callback now s source.name timer).processed =
        s.processed ++ [p] ∧
      (processSelectedTimer scheduler callback now s source.name timer).store = p.store ∧
      (processSelectedTimer scheduler callback now s source.name timer).cleanupOperations =
        s.cleanupOperations ++ cleanupOf scheduler p ∧
      Advanced scheduler.codec R now p.store (some timer.key) source source' := by
  obtain ⟨p, hsource, htimer, hprocessed, hsources, hstore, hcleanup, hcases⟩ :=
    processSelectedTimer_cases scheduler callback now s source.name timer
  have hstored : RowsStored R p.store := by
    obtain ⟨-, -, heq, -⟩ | ⟨-, -, heq, -⟩ := hcases
    · exact heq ▸ h.stored
    · exact heq ▸ hcallback timer s.store h.stored
  obtain ⟨-, hfrom⟩ := h.heads source (List.mem_of_getElem? hi) timer hnext
  obtain ⟨source', hadvance, hadvanced⟩ := advanceTimerSource_cases h.ofTimers hstored hfrom
  refine ⟨p, source', hsource, htimer, hstored, ?_, hprocessed, hstore, hcleanup, hadvanced⟩
  unfold takeTimer advanceSource
  simp only [hsources, hi, hstore, hadvance]
  rw [← hstore]

theorem Merged.take (h : Merged scheduler R now s) (hcallback : callback.KeepsRows R)
    {i : Nat} {timer : ScannedTimerEntry}
    (hselect : selectNextTimerSource scheduler.localeCompare s.sources = some (i, timer))
    {source : TimerSource V} (hi : s.sources[i]? = some source) :
    source.next = some timer ∧ Merged scheduler R now
      (takeTimer scheduler callback now s i source timer) := by
  have hselected := selectNextTimerSource_selected scheduler.localeCompare s.sources
  rw [hselect] at hselected
  obtain ⟨⟨source₀, hi₀, hnext⟩, hfirst⟩ := hselected
  obtain rfl := Option.some.inj (hi₀.symm.trans hi)
  refine ⟨hnext, ?_⟩
  have hmem := List.mem_of_getElem? hi
  obtain ⟨hread, -⟩ := h.heads source₀ hmem timer hnext
  have hdue := hread.dueTimer h.ofTimers
  obtain ⟨p, source', hsource, htimer, hstored, heq, hprocessed, hstore, hcleanup, hname, hcases⟩ :=
    h.takeTimer_cases hcallback hi hnext
  have hnew : ∀ next ∈ source'.next, ReadTimer scheduler.codec R source₀.name now next ∧
      timer.key < next.key ∧ source'.From R now (some next.key) := by
    intro next hmem
    obtain ⟨hnone, -⟩ | ⟨row, entry, -, -, hsome, hlt, hread', hfrom⟩ := hcases
    · rw [hnone] at hmem
      cases hmem
    · rw [hsome] at hmem
      obtain rfl := Option.some.inj hmem
      exact ⟨hread', by simpa using hlt, hfrom⟩
  rw [heq]
  refine ⟨h.ofTimers, hstore ▸ hstored, ?_, ?_, ?_, ?_, ?_, ?_⟩
  · obtain ⟨hlt, hget⟩ := List.getElem?_eq_some_iff.1 hi
    have hself : s.sources.set i source₀ = s.sources := hget ▸ List.set_getElem_self hlt
    show (s.sources.set i source').map TimerSource.name = _
    rw [List.map_set, hname, ← List.map_set, hself, h.names]
  · intro other hother next hmem'
    obtain rfl | ⟨j, -, hj⟩ := mem_set_cases hother
    · obtain ⟨hread', -, hfrom⟩ := hnew next hmem'
      exact ⟨hname ▸ hread', hfrom⟩
    · exact h.heads other (List.mem_of_getElem? hj) next hmem'
  · show ∀ q ∈ (processSelectedTimer scheduler callback now s source₀.name timer).processed, _
    rw [hprocessed]
    intro q hq
    rcases List.mem_append.1 hq with hq | hq
    · exact h.taken q hq
    · rw [List.mem_singleton.1 hq, hsource, htimer]
      exact hread
  · show ∀ q ∈ (processSelectedTimer scheduler callback now s source₀.name timer).processed, _
    rw [hprocessed]
    intro q hq other hother next hmem'
    rcases List.mem_append.1 hq with hq | hq
    · obtain ⟨hle, hlt⟩ := h.behind q hq source₀ hmem timer hnext
      obtain rfl | ⟨j, -, hj⟩ := mem_set_cases hother
      · obtain ⟨hread', hlt', -⟩ := hnew next hmem'
        refine ⟨hle.trans (hdue.fireAt_le (hread'.dueTimer h.ofTimers) hlt'), fun heq' => ?_⟩
        exact (hlt (heq'.trans hname)).trans hlt'
      · exact h.behind q hq other (List.mem_of_getElem? hj) next hmem'
    · rw [List.mem_singleton.1 hq, hsource, htimer]
      obtain rfl | ⟨j, hne, hj⟩ := mem_set_cases hother
      · obtain ⟨hread', hlt', -⟩ := hnew next hmem'
        exact ⟨hdue.fireAt_le (hread'.dueTimer h.ofTimers) hlt', fun _ => hlt'⟩
      · refine ⟨hfirst other (List.mem_of_getElem? hj) next hmem', fun heq' => ?_⟩
        exact (h.name_ne hi hj hne heq'.symm).elim
  · show (processSelectedTimer scheduler callback now s source₀.name timer).processed.Pairwise _
    rw [hprocessed]
    refine List.pairwise_append.2 ⟨h.ordered, List.pairwise_singleton _ _, fun q hq r hr => ?_⟩
    rw [List.mem_singleton.1 hr, htimer]
    obtain ⟨hle, hlt⟩ := h.behind q hq source₀ hmem timer hnext
    refine ⟨hle, fun heq' => ?_⟩
    exact (hlt (((h.taken q hq).dueTimer h.ofTimers).source_eq hdue heq')).ne heq'
  · show (processSelectedTimer scheduler callback now s source₀.name timer).cleanupOperations = _
    rw [hcleanup]
    show _ = (processSelectedTimer scheduler callback now s source₀.name timer).processed.flatMap _
    rw [hprocessed, h.cleanup, List.flatMap_append, List.flatMap_singleton]

/-- What every round keeps holds at the end of the loop. -/
theorem processTimers_induction {P : Tick V → Prop}
    (hround : ∀ s i timer source, P s → s.stopped = false →
      selectNextTimerSource scheduler.localeCompare s.sources = some (i, timer) →
      s.sources[i]? = some source → P (takeTimer scheduler callback now s i source timer))
    (fuel : Nat) {s : Tick V} (hs : P s) : P (processTimers scheduler callback now fuel s) := by
  induction fuel generalizing s with
  | zero => exact hs
  | succ fuel ih =>
    unfold processTimers
    split
    · exact hs
    · rename_i i timer hselect
      split_ifs with hstopped
      · exact hs
      · split
        · exact hs
        · rename_i source hi
          exact ih (hround s i timer source hs (by simpa using hstopped) hselect hi)

theorem Merged.processTimers (h : Merged scheduler R now s)
    (hcallback : callback.KeepsRows R) (fuel : Nat) :
    Merged scheduler R now (processTimers scheduler callback now fuel s) :=
  processTimers_induction (fun _ _ _ _ hs _ hselect hi => (hs.take hcallback hselect hi).2) fuel h

/-! ## The start -/

theorem advanceAll_cases (hR : OfTimers scheduler.codec R) (hstored : RowsStored R store)
    {sources : List (TimerSource V)} (hfrom : ∀ source ∈ sources, source.From R now none) :
    ∃ sources', advanceAll scheduler now sources store = (sources', store) ∧
      List.Forall₂ (Advanced scheduler.codec R now store none) sources sources' := by
  induction sources with
  | nil => exact ⟨[], rfl, .nil⟩
  | cons source rest ih =>
    obtain ⟨source', hadvance, hadvanced⟩ :=
      advanceTimerSource_cases hR hstored (hfrom source List.mem_cons_self)
    obtain ⟨rest', hrest, hforall⟩ := ih fun other hother =>
      hfrom other (List.mem_cons_of_mem _ hother)
    exact ⟨source' :: rest', by simp only [advanceAll, hadvance, hrest], .cons hadvanced hforall⟩

theorem from_createTimerSources (scheduler : SchedulerOptions V) (now : Nat) {state : State V}
    (hstored : RowsStored R state.store) :
    ∀ source ∈ createTimerSources scheduler now state, source.From R now none := by
  intro source hsource
  obtain ⟨name, -, rfl⟩ := List.mem_map.1 hsource
  exact ScanCursor.from_openScan name.family_last (by decide) rfl rfl (hstored.dueRow name) _

/-- Every source has read its first timer and nothing else has happened. -/
theorem startTick_cases (now : Nat) {state : State V} (hR : OfTimers scheduler.codec R)
    (hstored : RowsStored R state.store) :
    ∃ sources, startTick scheduler now state = { state with sources := sources } ∧
      List.Forall₂ (Advanced scheduler.codec R now state.store none)
        (createTimerSources scheduler now state) sources := by
  obtain ⟨sources, hadvance, hforall⟩ := advanceAll_cases hR hstored
    (from_createTimerSources scheduler now hstored)
  exact ⟨sources, by simp only [startTick, hadvance], hforall⟩

theorem Merged.start {state : State V} (hR : OfTimers scheduler.codec R)
    (hstored : RowsStored R state.store) :
    Merged scheduler R now (startTick scheduler now state) := by
  obtain ⟨sources, heq, hforall⟩ := startTick_cases now hR hstored
  rw [heq]
  refine ⟨hR, hstored, ?_, ?_, by simp, by simp, List.Pairwise.nil, rfl⟩
  · have hnames : List.Forall₂ Eq (sources.map TimerSource.name)
        ((createTimerSources scheduler now state).map TimerSource.name) := by
      rw [List.forall₂_map_left_iff, List.forall₂_map_right_iff]
      exact hforall.flip.imp fun _ _ hadvanced => hadvanced.1
    rw [List.forall₂_eq_eq_eq] at hnames
    show sources.map TimerSource.name = _
    rw [hnames, createTimerSources, List.map_map]
    rfl
  · intro source hsource timer htimer
    obtain ⟨source₀, -, hname, hcases⟩ := exists_left_of_forall₂ hforall hsource
    obtain ⟨hnone, -⟩ | ⟨row, entry, -, -, hsome, -, hread, hfrom⟩ := hcases
    · rw [hnone] at htimer
      cases htimer
    · rw [hsome] at htimer
      obtain rfl := Option.some.inj htimer
      exact ⟨hname ▸ hread, hfrom⟩

end Weft.Scheduler
