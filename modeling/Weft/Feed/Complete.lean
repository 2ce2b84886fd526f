import Weft.Feed.Model

/-! That a subscriber gets every event after its cursor once and in order, as long as compaction
stays out of the way of its replay. -/

namespace Weft.Feed

open Weft.Lib

theorem Covers.concat_event {p q : Nat} {records : List EventRecord} (h : Covers p records q) :
    Covers p (records ++ [.event q]) (q + 1) := by
  induction records generalizing p with
  | nil =>
    obtain rfl : p = q := h
    exact ⟨rfl, rfl⟩
  | cons record records ih =>
    cases record with
    | event sequence => exact ⟨h.1, ih h.2⟩
    | boundary requestedFrom compactedBefore => exact ⟨h.1, h.2.1, ih h.2.2⟩

theorem take_range' (start n k : Nat) :
    (List.range' start n).take k = List.range' start (min k n) := by
  obtain hle | hle := le_total n k
  · rw [List.take_range'_of_length_le hle, min_eq_right hle]
  · rw [List.take_range'_of_length_ge hle, min_eq_left hle]

/-- Flushing a run of consecutive sequences gives those past the watermark. -/
theorem flushPendingBuffer_range' (n : Nat) : ∀ start q : Nat, start ≤ q →
    flushPendingBuffer (List.range' start n) ((q : Int) - 1) =
      (List.range' q (start + n - q), ((max q (start + n) : Nat) : Int) - 1) := by
  induction n with
  | zero =>
    intro start q hle
    have hlen : start + 0 - q = 0 := by omega
    have hmax : max q (start + 0) = q := by omega
    rw [hlen, hmax]
    rfl
  | succ n ih =>
    intro start q hle
    rw [List.range'_succ, flushPendingBuffer]
    split_ifs with hpast
    · have hq : q = start := by omega
      subst hq
      have hnext := ih (q + 1) (q + 1) le_rfl
      have hcast : ((q + 1 : Nat) : Int) - 1 = q := by omega
      rw [hcast] at hnext
      rw [hnext]
      have hlen : q + (n + 1) - q = (q + 1 + n - (q + 1)) + 1 := by omega
      have hmax : max (q + 1) (q + 1 + n) = max q (q + (n + 1)) := by omega
      rw [hlen, List.range'_succ, hmax]
    · rw [ih (start + 1) q (by omega)]
      have hsum : start + 1 + n = start + (n + 1) := by omega
      rw [hsum]

namespace Subscription

/-- The buffer holds everything that was announced from `start` on. -/
def Window (s : Subscription) (start : Nat) : Prop :=
  start ≤ s.log.announced ∧ s.buffer = List.range' start (s.log.announced - start)

/-- Nothing that was announced after the watermark is missing from the buffer. -/
def Live (s : Subscription) (watermark : Int) : Prop :=
  s.overflowed = false → ∃ start : Nat, (start : Int) ≤ watermark + 1 ∧ s.Window start

/-- The rows that the scan has still to yield, from the next sequence `p` on: those it has read,
and those in the storage up to the snapshot. -/
def Unread (s : Subscription) (snapshot : Int) (position : Nat) (batch : List Nat) (p : Nat) :
    Prop :=
  p = snapshot + 1 ∧ snapshot < (position : Int) ∧ (∀ row ∈ batch, snapshot < (row : Int)) ∨
    p ≤ position ∧ batch = List.range' p (position - p) ∧
      (s.log.floor ≤ position ∨ snapshot < (position : Int))

/-- Where the subscriber is in the phase it is in. -/
def Standing (s : Subscription) : Phase → Prop
  | .subscribed => s.received = [] ∧ (s.overflowed = false → ∃ start, s.Window start)
  | .snapshotted snapshot =>
      s.received = [] ∧ s.Live snapshot ∧
        (fromSequence s.afterSequence : Int) ≤ snapshot + 1 ∧ snapshot + 1 ≤ s.log.committed ∧
        ((s.log.floor : Int) ≤ snapshot + 1 ∨ snapshot < (fromSequence s.afterSequence : Int))
  | .scanning snapshot position batch _ =>
      ∃ p : Nat, Covers (fromSequence s.afterSequence) s.received p ∧ s.Live snapshot ∧
        snapshot + 1 ≤ s.log.committed ∧ (p : Int) ≤ snapshot + 1 ∧
        (∀ row ∈ batch, row < s.log.committed) ∧ s.Unread snapshot position batch p
  | .draining watermark batch =>
      ∃ p : Nat, Covers (fromSequence s.afterSequence) s.received p ∧
        (∀ row ∈ batch, row < s.log.committed) ∧ s.Live watermark ∧
        (s.overflowed = false →
          batch = List.range' p batch.length ∧ watermark + 1 = ((p + batch.length : Nat) : Int))
  | .ended => ∃ q, Covers (fromSequence s.afterSequence) s.received q

structure Tracks (s : Subscription) : Prop where
  standing : s.Standing s.phase
  events : ∀ sequence, .event sequence ∈ s.received → sequence < s.log.committed
  boundaries : ∀ requestedFrom compactedBefore,
    .boundary requestedFrom compactedBefore ∈ s.received → compactedBefore ≤ s.log.floor

variable {s : Subscription}

theorem Tracks.covers (h : s.Tracks) : ∃ q, Covers (fromSequence s.afterSequence) s.received q := by
  have hstanding := h.standing
  cases hphase : s.phase with
  | subscribed =>
    rw [hphase] at hstanding
    refine ⟨fromSequence s.afterSequence, ?_⟩
    rw [hstanding.1]
    rfl
  | snapshotted snapshot =>
    rw [hphase] at hstanding
    refine ⟨fromSequence s.afterSequence, ?_⟩
    rw [hstanding.1]
    rfl
  | scanning snapshot position batch replayCount =>
    rw [hphase] at hstanding
    obtain ⟨p, hcovers, -⟩ := hstanding
    exact ⟨p, hcovers⟩
  | draining watermark batch =>
    rw [hphase] at hstanding
    obtain ⟨p, hcovers, -⟩ := hstanding
    exact ⟨p, hcovers⟩
  | ended =>
    rw [hphase] at hstanding
    exact hstanding

theorem Tracks.exact (h : s.Tracks) : Exact s :=
  ⟨h.covers, h.events, h.boundaries⟩

theorem tracks_subscribe (log : Log) (afterSequence : Int) (bufferSize : Nat)
    (replayLimit : Option Nat) : (subscribe log afterSequence bufferSize replayLimit).Tracks where
  standing := by
    refine ⟨rfl, fun _ => ⟨log.announced, le_rfl, ?_⟩⟩
    rw [subscribe, Nat.sub_self]
    rfl
  events _ hmem := by cases hmem
  boundaries _ _ hmem := by cases hmem

/-! The log's own steps. -/

variable {log : Log}

theorem Tracks.commit (h : s.Tracks) {floor : Nat} (hlog : s.log.commit floor = some log)
    (hsteady : Steady s (.commit floor)) : Tracks { s with log } := by
  rw [Log.commit] at hlog
  split_ifs at hlog with hguard
  cases hlog
  refine ⟨?_, fun sequence hmem => (h.events sequence hmem).trans (Nat.lt_succ_self _),
    fun requestedFrom compactedBefore hmem =>
      (h.boundaries requestedFrom compactedBefore hmem).trans hguard.2.1⟩
  have hstanding := h.standing
  rw [Steady] at hsteady
  cases hphase : s.phase with
  | subscribed =>
    rw [hphase] at hstanding
    exact hstanding
  | snapshotted snapshot =>
    rw [hphase] at hstanding hsteady
    obtain ⟨hreceived, hlive, hfrom, hcommitted, -⟩ := hstanding
    refine ⟨hreceived, hlive, hfrom, ?_, hsteady⟩
    simp only [Nat.cast_add, Nat.cast_one]
    omega
  | scanning snapshot position batch replayCount =>
    rw [hphase] at hstanding hsteady
    obtain ⟨p, hcovers, hlive, hcommitted, hp, hrows, hunread⟩ := hstanding
    refine ⟨p, hcovers, hlive, ?_, hp, fun row hrow => (hrows row hrow).trans (Nat.lt_succ_self _),
      ?_⟩
    · simp only [Nat.cast_add, Nat.cast_one]
      omega
    · obtain hdone | ⟨hle, hbatch, -⟩ := hunread
      · exact .inl hdone
      · exact .inr ⟨hle, hbatch, hsteady⟩
  | draining watermark batch =>
    rw [hphase] at hstanding
    obtain ⟨p, hcovers, hrows, hlive, hbatch⟩ := hstanding
    exact ⟨p, hcovers, fun row hrow => (hrows row hrow).trans (Nat.lt_succ_self _), hlive, hbatch⟩
  | ended =>
    rw [hphase] at hstanding
    exact hstanding

theorem Window.announce {start : Nat} (h : s.Window start)
    (hlog : log.announced = s.log.announced + 1) :
    Window { s with buffer := s.buffer ++ [s.log.announced], log } start := by
  obtain ⟨hle, hbuffer⟩ := h
  refine ⟨?_, ?_⟩
  · simp only [hlog]
    omega
  · have hlen : s.log.announced + 1 - start = (s.log.announced - start) + 1 := by omega
    have hlast : start + (s.log.announced - start) = s.log.announced := by omega
    simp only [hlog, hbuffer, hlen, List.range'_concat, Nat.one_mul, hlast]

/-- An announcement is heard by every subscription that has not ended. -/
theorem Standing.announce {phase : Phase} (h : s.Standing phase) (hphase : s.phase ≠ .ended)
    (hannounced : log.announced = s.log.announced + 1)
    (hcommitted : log.committed = s.log.committed) (hfloor : log.floor = s.log.floor) :
    Standing { s.notify s.log.announced with log } phase := by
  have hheard : s.notify s.log.announced = { s with overflowed := true } ∨
      s.notify s.log.announced = { s with buffer := s.buffer ++ [s.log.announced] } := by
    rw [notify]
    split
    · contradiction
    · split_ifs
      · exact .inl rfl
      · exact .inr rfl
  obtain heq | heq := hheard
  · -- a full buffer: nothing live will be yielded
    rw [heq]
    cases phase with
    | subscribed => exact ⟨h.1, fun hfalse => by cases hfalse⟩
    | snapshotted snapshot =>
      obtain ⟨hreceived, -, hrest⟩ := h
      refine ⟨hreceived, (fun hfalse => by cases hfalse), ?_⟩
      simpa only [hcommitted, hfloor] using hrest
    | scanning snapshot position batch replayCount =>
      obtain ⟨p, hcovers, -, hrest⟩ := h
      refine ⟨p, hcovers, (fun hfalse => by cases hfalse), ?_⟩
      simpa only [hcommitted, Unread, hfloor] using hrest
    | draining watermark batch =>
      obtain ⟨p, hcovers, hrows, -, -⟩ := h
      refine ⟨p, hcovers, ?_, (fun hfalse => by cases hfalse), fun hfalse => by cases hfalse⟩
      simpa only [hcommitted] using hrows
    | ended => exact h
  · rw [heq]
    have hlive : ∀ watermark, s.Live watermark → Live
        { s with buffer := s.buffer ++ [s.log.announced], log } watermark := by
      intro watermark hwatermark hclear
      obtain ⟨start, hstart, hwindow⟩ := hwatermark hclear
      exact ⟨start, hstart, hwindow.announce hannounced⟩
    cases phase with
    | subscribed =>
      refine ⟨h.1, fun hclear => ?_⟩
      obtain ⟨start, hwindow⟩ := h.2 hclear
      exact ⟨start, hwindow.announce hannounced⟩
    | snapshotted snapshot =>
      obtain ⟨hreceived, hbefore, hrest⟩ := h
      refine ⟨hreceived, hlive snapshot hbefore, ?_⟩
      simpa only [hcommitted, hfloor] using hrest
    | scanning snapshot position batch replayCount =>
      obtain ⟨p, hcovers, hbefore, hrest⟩ := h
      refine ⟨p, hcovers, hlive snapshot hbefore, ?_⟩
      simpa only [hcommitted, Unread, hfloor] using hrest
    | draining watermark batch =>
      obtain ⟨p, hcovers, hrows, hbefore, hbatch⟩ := h
      refine ⟨p, hcovers, ?_, hlive watermark hbefore, hbatch⟩
      simpa only [hcommitted] using hrows
    | ended => exact h

theorem notify_phase (s : Subscription) (sequence : Nat) :
    (s.notify sequence).phase = s.phase ∧ (s.notify sequence).received = s.received := by
  rw [notify]
  split
  · exact ⟨rfl, rfl⟩
  · split_ifs
    · exact ⟨rfl, rfl⟩
    · exact ⟨rfl, rfl⟩

theorem Tracks.announce (h : s.Tracks) (hlog : s.log.announce = some log) :
    Tracks { s.notify s.log.announced with log } := by
  rw [Log.announce] at hlog
  split_ifs at hlog with hguard
  cases hlog
  obtain ⟨hphase, hreceived⟩ := s.notify_phase s.log.announced
  constructor
  · by_cases hended : s.phase = .ended
    · have hsame : s.notify s.log.announced = s := by rw [notify, hended]
      have hstanding := h.standing
      rw [hended] at hstanding
      simp only [hsame, hended]
      exact hstanding
    · simp only [hphase]
      exact h.standing.announce hended rfl rfl rfl
  · simp only [hreceived]
    exact h.events
  · simp only [hreceived]
    exact h.boundaries

/-! The subscriber's steps. -/

theorem Tracks.snapshot (h : s.Tracks) (hphase : s.phase = .subscribed) {fromStorage : Bool}
    (hsteady : Steady s (.snapshot fromStorage)) :
    Tracks { s with phase := .snapshotted (s.snapshotTailSequence fromStorage) } := by
  have hstanding := h.standing
  rw [hphase] at hstanding
  obtain ⟨hreceived, hwindow⟩ := hstanding
  have hannounced := s.log.announced_le
  have hfloor := s.log.floor_le
  have htail : (s.log.announced : Int) ≤ s.snapshotTailSequence fromStorage + 1 ∧
      s.snapshotTailSequence fromStorage + 1 ≤ s.log.committed := by
    cases fromStorage with
    | false =>
      simp only [snapshotTailSequence, Bool.false_eq_true, if_false]
      omega
    | true =>
      simp only [snapshotTailSequence, if_true]
      omega
  refine { h with standing := ⟨hreceived, ?_, hsteady, htail.2, .inl ?_⟩ }
  · intro hclear
    obtain ⟨start, hstart⟩ := hwindow hclear
    refine ⟨start, ?_, hstart⟩
    have hle := hstart.1
    omega
  · simp only
    omega

/-- What one record of the replay leaves: the end of the replay, the end of the subscription, or
the record received. -/
theorem replayRecord_cases (s : Subscription) (snapshot : Int) (replayCount sequence : Nat)
    (record : EventRecord) (next : Phase) :
    snapshot < (sequence : Int) ∧ s.replayRecord snapshot replayCount sequence record next =
        { s with phase := .draining snapshot [] } ∨
      s.replayRecord snapshot replayCount sequence record next = { s with phase := .ended } ∨
      (sequence : Int) ≤ snapshot ∧ s.replayRecord snapshot replayCount sequence record next =
        { s with phase := next, received := s.received ++ [record] } := by
  rw [replayRecord]
  split_ifs with hpast hlimit
  · exact .inl ⟨hpast, rfl⟩
  · exact .inr (.inl rfl)
  · exact .inr (.inr ⟨not_lt.1 hpast, rfl⟩)

variable {snapshot : Int}

section

variable (h : s.Tracks)

include h

/-- The replay is over once the next sequence is past the snapshot. -/
theorem Tracks.drain {p : Nat} (hcovers : Covers (fromSequence s.afterSequence) s.received p)
    (hlive : s.Live snapshot) (hp : (p : Int) = snapshot + 1) :
    Tracks { s with phase := .draining snapshot [] } := by
  refine { h with standing := ⟨p, hcovers, (fun _ hrow => by cases hrow), hlive, fun _ => ?_⟩ }
  exact ⟨rfl, hp.symm⟩

theorem Tracks.ended : Tracks { s with phase := .ended } :=
  { h with standing := h.covers }

theorem Tracks.readWatermark (hphase : s.phase = .snapshotted snapshot) :
    (s.readWatermark snapshot).Tracks := by
  have hstanding := h.standing
  rw [hphase] at hstanding
  obtain ⟨hreceived, hlive, hfrom, hcommitted, hfloor⟩ := hstanding
  have hnothing : Covers (fromSequence s.afterSequence) s.received (fromSequence s.afterSequence) :=
    hreceived ▸ rfl
  simp only [Subscription.readWatermark]
  split_ifs with htruncated
  · obtain ⟨hpast, heq⟩ | heq | ⟨hwithin, heq⟩ := s.replayRecord_cases snapshot 0
      (s.log.floor - 1) (.boundary (fromSequence s.afterSequence) s.log.floor)
      (.scanning snapshot s.log.floor [] 1)
    · -- the boundary lies past the snapshot: there was nothing to replay
      rw [heq]
      exact h.drain hnothing hlive (by omega)
    · rw [heq]
      exact h.ended
    · rw [heq]
      refine ⟨⟨s.log.floor, ?_, hlive, hcommitted, by omega, (fun _ hrow => by cases hrow),
        .inr ⟨le_rfl, ?_, .inl le_rfl⟩⟩, ?_, ?_⟩
      · simp only [hreceived, List.nil_append]
        exact ⟨rfl, htruncated, rfl⟩
      · rw [Nat.sub_self]
        rfl
      · intro sequence hmem
        simp [hreceived] at hmem
      · intro requestedFrom compactedBefore hmem
        simp only [hreceived, List.nil_append, List.mem_singleton,
          EventRecord.boundary.injEq] at hmem
        exact hmem.2.le
  · refine { h with standing := ⟨fromSequence s.afterSequence, hnothing, hlive, hcommitted, hfrom,
      (fun _ hrow => by cases hrow), .inr ⟨le_rfl, ?_, .inl (not_lt.1 htruncated)⟩⟩ }
    rw [Nat.sub_self]
    rfl

theorem Tracks.fetch {position replayCount : Nat}
    (hphase : s.phase = .scanning snapshot position [] replayCount) (rows : Nat) :
    (s.fetch snapshot position replayCount rows).Tracks := by
  have hstanding := h.standing
  rw [hphase] at hstanding
  obtain ⟨p, hcovers, hlive, hcommitted, hp, -, hunread⟩ := hstanding
  -- with nothing read ahead, the next sequence is the scan's position or past the snapshot
  have hnext : p = snapshot + 1 ∧ snapshot < (position : Int) ∨
      p = position ∧ s.log.floor ≤ position := by
    obtain ⟨hdone, hpast, -⟩ | ⟨hle, hbatch, hkept⟩ := hunread
    · exact .inl ⟨hdone, hpast⟩
    · have hempty : position - p = 0 := List.range'_eq_nil_iff.1 hbatch.symm
      obtain hfloor | hpast := hkept
      · exact .inr ⟨by omega, hfloor⟩
      · exact .inl ⟨by omega, hpast⟩
  rw [Subscription.fetch]
  cases hrows : s.log.rowsFrom position with
  | nil =>
    refine h.drain hcovers hlive ?_
    have hnone := List.range'_eq_nil_iff.1 hrows
    omega
  | cons row rest =>
    obtain ⟨rfl, hpos, rfl⟩ := List.range'_eq_cons_iff.1 hrows
    have hbatch : max position s.log.floor :: (List.range' (max position s.log.floor + 1)
        (s.log.committed - max position s.log.floor - 1)).take rows =
        List.range' (max position s.log.floor)
          (min rows (s.log.committed - max position s.log.floor - 1) + 1) := by
      rw [take_range', List.range'_succ]
    simp only [hbatch, List.length_range']
    refine { h with standing := ⟨p, hcovers, hlive, hcommitted, hp, fun row hrow => ?_, ?_⟩ }
    · rw [List.mem_range'_1] at hrow
      simp only
      omega
    · obtain ⟨hdone, hpast⟩ | ⟨hposition, hfloor⟩ := hnext
      · refine .inl ⟨hdone, by omega, fun row hrow => ?_⟩
        rw [List.mem_range'_1] at hrow
        omega
      · have hmax : max position s.log.floor = p := by omega
        refine .inr ⟨by omega, ?_, .inl (by simp only; omega)⟩
        rw [hmax]
        congr 1
        omega

theorem Tracks.yieldRow {position replayCount row : Nat} {batch : List Nat}
    (hphase : s.phase = .scanning snapshot position (row :: batch) replayCount) :
    (s.replayRecord snapshot replayCount row (.event row)
      (.scanning snapshot position batch (replayCount + 1))).Tracks := by
  have hstanding := h.standing
  rw [hphase] at hstanding
  obtain ⟨p, hcovers, hlive, hcommitted, hp, hrows, hunread⟩ := hstanding
  obtain ⟨hpast, heq⟩ | heq | ⟨hwithin, heq⟩ := s.replayRecord_cases snapshot replayCount row
    (.event row) (.scanning snapshot position batch (replayCount + 1))
  · rw [heq]
    refine h.drain hcovers hlive ?_
    obtain ⟨hdone, -⟩ | ⟨hle, hbatch, -⟩ := hunread
    · exact hdone
    · obtain ⟨hrow, -⟩ := List.range'_eq_cons_iff.1 hbatch.symm
      omega
  · rw [heq]
    exact h.ended
  · rw [heq]
    obtain ⟨-, -, hafter⟩ | ⟨hle, hbatch, hkept⟩ := hunread
    · have hpast := hafter row List.mem_cons_self
      omega
    · obtain ⟨rfl, hpos, hrest⟩ := List.range'_eq_cons_iff.1 hbatch.symm
      refine ⟨⟨p + 1, hcovers.concat_event, hlive, hcommitted, by omega,
        fun row hrow => hrows row (List.mem_cons_of_mem _ hrow), .inr ⟨by omega, ?_, hkept⟩⟩,
        fun sequence hmem => ?_, fun requestedFrom compactedBefore hmem => ?_⟩
      · rw [hrest]
        congr 1
      · simp only [List.mem_append, List.mem_singleton, EventRecord.event.injEq] at hmem
        obtain hold | rfl := hmem
        · exact h.events sequence hold
        · exact hrows sequence List.mem_cons_self
      · simp only [List.mem_append, List.mem_singleton, reduceCtorEq, or_false] at hmem
        exact h.boundaries requestedFrom compactedBefore hmem

theorem Tracks.flush {watermark : Int} (hphase : s.phase = .draining watermark []) :
    (s.flush watermark).Tracks := by
  have hstanding := h.standing
  rw [hphase] at hstanding
  obtain ⟨p, hcovers, -, hlive, hbatch⟩ := hstanding
  rw [Subscription.flush]
  split_ifs with hoverflowed
  · exact h.ended
  · replace hoverflowed := Bool.eq_false_iff.2 hoverflowed
    obtain ⟨start, hstart, hle, hbuffer⟩ := hlive hoverflowed
    obtain ⟨-, hwatermark⟩ := hbatch hoverflowed
    simp only [List.length_nil, Nat.add_zero] at hwatermark
    have hannounced := s.log.announced_le
    have hflushed := flushPendingBuffer_range' (s.log.announced - start) start p (by omega)
    have hall : start + (s.log.announced - start) = s.log.announced := by omega
    have heq : (p : Int) - 1 = watermark := by omega
    rw [hall, heq, ← hbuffer] at hflushed
    simp only [hflushed]
    refine { h with standing := ⟨p, hcovers, fun row hrow => ?_, fun _ => ?_, fun _ => ⟨?_, ?_⟩⟩ }
    · rw [List.mem_range'_1] at hrow
      simp only
      omega
    · refine ⟨s.log.announced, by omega, le_rfl, ?_⟩
      rw [Nat.sub_self]
      rfl
    · rw [List.length_range']
    · rw [List.length_range']
      omega

theorem Tracks.yieldLive {watermark : Int} {head : Nat} {batch : List Nat}
    (hphase : s.phase = .draining watermark (head :: batch)) :
    (s.yieldLive watermark head batch).Tracks := by
  have hstanding := h.standing
  rw [hphase] at hstanding
  obtain ⟨p, hcovers, hrows, hlive, hbatch⟩ := hstanding
  rw [Subscription.yieldLive]
  split_ifs with hoverflowed
  · exact h.ended
  · replace hoverflowed := Bool.eq_false_iff.2 hoverflowed
    obtain ⟨hrun, hwatermark⟩ := hbatch hoverflowed
    obtain ⟨rfl, -, hrest⟩ := List.range'_eq_cons_iff.1 hrun.symm
    refine ⟨⟨p + 1, hcovers.concat_event, fun row hrow => hrows row (List.mem_cons_of_mem _ hrow),
      hlive, fun _ => ⟨?_, ?_⟩⟩, fun sequence hmem => ?_,
      fun requestedFrom compactedBefore hmem => ?_⟩
    · simpa using hrest
    · simp only [List.length_cons] at hwatermark
      omega
    · simp only [List.mem_append, List.mem_singleton, EventRecord.event.injEq] at hmem
      obtain hold | rfl := hmem
      · exact h.events sequence hold
      · exact hrows sequence List.mem_cons_self
    · simp only [List.mem_append, List.mem_singleton, reduceCtorEq, or_false] at hmem
      exact h.boundaries requestedFrom compactedBefore hmem

end

theorem Tracks.step {s s' : Subscription} (h : s.Tracks) {event : Step} (hsteady : Steady s event)
    (hs' : s.step event = some s') : s'.Tracks := by
  cases event with
  | commit floor =>
    obtain ⟨log, hlog, rfl⟩ := Option.map_eq_some_iff.1 hs'
    exact h.commit hlog hsteady
  | announce =>
    obtain ⟨log, hlog, rfl⟩ := Option.map_eq_some_iff.1 hs'
    exact h.announce hlog
  | snapshot fromStorage =>
    rw [Subscription.step] at hs'
    split at hs'
    · rename_i hphase
      obtain rfl := Option.some.inj hs'
      exact h.snapshot hphase hsteady
    · cases hs'
  | readWatermark =>
    rw [Subscription.step] at hs'
    split at hs'
    · rename_i hphase
      obtain rfl := Option.some.inj hs'
      exact h.readWatermark hphase
    · cases hs'
  | fetch rows =>
    rw [Subscription.step] at hs'
    split at hs'
    · rename_i hphase
      obtain rfl := Option.some.inj hs'
      exact h.fetch hphase rows
    · cases hs'
  | yieldRow =>
    rw [Subscription.step] at hs'
    split at hs'
    · rename_i hphase
      obtain rfl := Option.some.inj hs'
      exact h.yieldRow hphase
    · cases hs'
  | flush =>
    rw [Subscription.step] at hs'
    split at hs'
    · rename_i hphase
      obtain rfl := Option.some.inj hs'
      exact h.flush hphase
    · cases hs'
  | yieldLive =>
    rw [Subscription.step] at hs'
    split at hs'
    · rename_i hphase
      obtain rfl := Option.some.inj hs'
      exact h.yieldLive hphase
    · cases hs'
  | abort =>
    obtain rfl := Option.some.inj hs'
    exact h.ended

end Subscription

open Subscription

/-- Where no compaction takes unread events from under a replay, a subscriber has at every time
received a prefix of the events after its cursor, each once and in order. -/
theorem received_exact (log : Log) (afterSequence : Int) (bufferSize : Nat)
    (replayLimit : Option Nat) (steps : List Step)
    (h : machine.EveryStep Steady (subscribe log afterSequence bufferSize replayLimit) steps) :
    machine.EveryState Exact (subscribe log afterSequence bufferSize replayLimit) steps := by
  have hinvariant : machine.EveryState Tracks
      (subscribe log afterSequence bufferSize replayLimit) steps :=
    Machine.everyState_of_invariant (fun s event s' hs hsteady hs' => hs.step hsteady hs')
      (tracks_subscribe log afterSequence bufferSize replayLimit) h
  exact hinvariant.mono fun s hs => hs.exact

/-! A log of two events, and a subscriber from its beginning. -/

def twoEvents : Log := ⟨2, 2, 0, le_rfl, Nat.le_succ 2, Nat.zero_le 2⟩

theorem received_exact_compacted_before :
    machine.EveryState Exact (subscribe twoEvents (-1) 10 none)
      [.commit 1, .announce, .snapshot false, .readWatermark, .commit 1, .fetch 5, .yieldRow,
        .announce, .yieldRow, .fetch 5, .yieldRow, .flush, .yieldLive] :=
  received_exact twoEvents (-1) 10 none _ (by decide)

/-- A compaction between the snapshot and the read of the watermark goes past the snapshot: the
boundary that announces it ends the replay unseen, and the first record received is the event 2. -/
theorem truncated_events_not_announced :
    ¬ machine.EveryState Exact (subscribe twoEvents (-1) 10 none)
      [.snapshot false, .commit 2, .announce, .commit 3, .announce, .readWatermark, .flush,
        .yieldLive] := by
  intro h
  obtain ⟨q, hq, -⟩ := h.final.covers
  exact absurd hq (by decide)

end Weft.Feed
