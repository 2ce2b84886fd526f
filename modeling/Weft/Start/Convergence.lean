import Weft.Lib.Lists
import Weft.Start.Model

/-! What the calls keep of each other. The reservation has one holder, and while it is held no one
else creates under the id; an accepted marker of a live record stands for a signal that was buffered
for it. -/

namespace Weft.Start.Convergence
open Weft.Lib

/-- No run is under way. -/
def Flow.Settled (x : Flow) : Prop := ∀ row ∈ x.state, row.terminal = true

/-- Every accepted marker is that of a signal that still waits for the first run or was buffered for
the run there is. -/
structure Flow.Sound (x : Flow) : Prop where
  waiting : x.state = none → ∀ m ∈ x.accepted, m ∈ x.signals
  heard : ∀ row ∈ x.state, ∀ m ∈ x.accepted, (row.execution, m) ∈ x.heard
  marked : ∀ m ∈ x.signals, m ∈ x.accepted
  displaced : ∀ row ∈ x.displaced, row.terminal = true

/-- What was collected is still there, and what came later is in the buffer. -/
structure Purge.Sound (purge : Purge) (x : Flow) : Prop where
  signals : ∀ m ∈ purge.signals, m ∈ purge.accepted
  accepted : ∀ m ∈ purge.accepted, m ∈ x.accepted
  later : ∀ m ∈ x.accepted, m ∉ purge.accepted → m ∈ x.signals
  consumed : ∀ m ∈ x.signals, m ∉ purge.signals → m ∉ purge.accepted

/-- What any step leaves of a workflow. -/
structure Flow.Later (x y : Flow) : Prop where
  state : ∀ row ∈ x.state, ∃ row' ∈ y.state, row.execution ≤ row'.execution
  heard : ∀ m ∈ x.heard, m ∈ y.heard
  accepted : y.state = none → ∀ m ∈ x.accepted, m ∈ y.accepted

/-- What a step leaves of a workflow that is not under way, unless it is a create. -/
structure Flow.Unmoved (x y : Flow) : Prop where
  state : y.state = x.state
  purge : ∀ purge : Purge, purge.Sound x → purge.Sound y

theorem Flow.Later.refl (x : Flow) : x.Later x :=
  ⟨fun row hrow => ⟨row, hrow, Nat.le_refl _⟩, fun _ hm => hm, fun _ _ hm => hm⟩

theorem Flow.Unmoved.refl (x : Flow) : x.Unmoved x := ⟨rfl, fun _ h => h⟩

section flow

variable {x y : Flow} {signal : Signal} {purge : Purge} {execution : Nat}

theorem buffer_later (x : Flow) (signal : Signal) : x.Later (x.buffer signal) :=
  ⟨fun row hrow => ⟨row, hrow, Nat.le_refl _⟩, fun _ hm => List.mem_append_right _ hm,
    fun _ _ hm => List.mem_cons_of_mem _ hm⟩

theorem buffer_sound (hx : x.Sound) (signal : Signal) : (x.buffer signal).Sound where
  waiting hnone m hm := by
    rcases List.mem_cons.1 hm with rfl | hm
    · exact List.mem_cons_self
    · exact List.mem_cons_of_mem _ (hx.waiting hnone m hm)
  heard row hrow m hm := by
    have hstate : x.state = some row := hrow
    rcases List.mem_cons.1 hm with rfl | hm
    · simp [Flow.buffer, hstate]
    · exact List.mem_append_right _ (hx.heard row hrow m hm)
  marked m hm := by
    rcases List.mem_cons.1 hm with rfl | hm
    · exact List.mem_cons_self
    · exact List.mem_cons_of_mem _ (hx.marked m hm)
  displaced := hx.displaced

theorem buffer_unmoved (hnew : signal ∉ x.accepted) : x.Unmoved (x.buffer signal) where
  state := rfl
  purge purge h := by
    refine ⟨h.signals, fun m hm => List.mem_cons_of_mem _ (h.accepted m hm), ?_, ?_⟩
    · intro m hm hnot
      rcases List.mem_cons.1 hm with rfl | hm
      · exact List.mem_cons_self
      · exact List.mem_cons_of_mem _ (h.later m hm hnot)
    · intro m hm hnot
      rcases List.mem_cons.1 hm with rfl | hm
      · exact fun hpurge => hnew (h.accepted _ hpurge)
      · exact h.consumed m hm hnot

/-- The signal is in the buffer of the run that is there. -/
theorem mem_buffer_heard {row : Row} (hrow : x.state = some row) :
    (row.execution, signal) ∈ (x.buffer signal).heard := by
  simp [Flow.buffer, hrow]

theorem finish_eq (h : x.finish = some y) :
    ∃ e, x.state = some ⟨e, false⟩ ∧ y = { x with state := some ⟨e, true⟩ } := by
  unfold Flow.finish at h
  split at h
  next e he => exact ⟨e, he, (Option.some.inj h).symm⟩
  next => cases h

theorem consume_eq (h : x.consume signal = some y) :
    ∃ e, x.state = some ⟨e, false⟩ ∧ y = { x with signals := x.signals.erase signal } := by
  unfold Flow.consume at h
  split at h
  next e he => exact ⟨e, he, (Option.some.inj h).symm⟩
  next => cases h

theorem cleanup_eq (h : x.cleanup = some y) :
    ∃ e, x.state = some ⟨e, true⟩ ∧ y = { x with signals := [], accepted := [] } := by
  unfold Flow.cleanup at h
  split at h
  next e he => exact ⟨e, he, (Option.some.inj h).symm⟩
  next => cases h

theorem not_settled_of_live (h : x.state = some ⟨execution, false⟩) : ¬ x.Settled := by
  intro hsettled
  cases hsettled _ h

theorem finish_later (h : x.finish = some y) : x.Later y := by
  obtain ⟨e, he, rfl⟩ := finish_eq h
  refine ⟨?_, fun _ hm => hm, fun hnone => (by cases hnone)⟩
  intro row hrow
  rw [he] at hrow
  cases hrow
  exact ⟨_, rfl, Nat.le_refl _⟩

theorem finish_sound (hx : x.Sound) (h : x.finish = some y) : y.Sound := by
  obtain ⟨e, he, rfl⟩ := finish_eq h
  refine ⟨fun hnone => (by cases hnone), ?_, hx.marked, hx.displaced⟩
  intro row hrow m hm
  cases hrow
  exact hx.heard _ he m hm

theorem consume_later (h : x.consume signal = some y) : x.Later y := by
  obtain ⟨e, he, rfl⟩ := consume_eq h
  exact ⟨fun row hrow => ⟨row, hrow, Nat.le_refl _⟩, fun _ hm => hm, fun _ _ hm => hm⟩

theorem consume_sound (hx : x.Sound) (h : x.consume signal = some y) : y.Sound := by
  obtain ⟨e, he, rfl⟩ := consume_eq h
  refine ⟨?_, hx.heard, fun m hm => hx.marked m (List.mem_of_mem_erase hm), hx.displaced⟩
  intro hnone
  have hstate : x.state = none := hnone
  rw [he] at hstate
  cases hstate

theorem cleanup_later (h : x.cleanup = some y) : x.Later y := by
  obtain ⟨e, he, rfl⟩ := cleanup_eq h
  refine ⟨fun row hrow => ⟨row, hrow, Nat.le_refl _⟩, fun _ hm => hm, ?_⟩
  intro hnone
  have hstate : x.state = none := hnone
  rw [he] at hstate
  cases hstate

theorem cleanup_sound (hx : x.Sound) (h : x.cleanup = some y) : y.Sound := by
  obtain ⟨e, he, rfl⟩ := cleanup_eq h
  exact ⟨fun _ _ hm => (by cases hm), fun _ _ _ hm => (by cases hm), fun _ hm => (by cases hm),
    hx.displaced⟩

theorem empty_purge_sound (hx : x.Sound) (hnone : x.state = none) : Purge.Sound {} x :=
  ⟨fun _ hm => (by cases hm), fun _ hm => (by cases hm), fun m hm _ => hx.waiting hnone m hm,
    fun _ _ _ hm => (by cases hm)⟩

theorem collected_purge_sound (hx : x.Sound) : Purge.Sound ⟨x.signals, x.accepted⟩ x :=
  ⟨hx.marked, fun _ hm => hm, fun _ hm hnot => absurd hm hnot, fun _ hm hnot => absurd hm hnot⟩

/-- The markers that a create leaves are of signals that it leaves. -/
theorem create_signals (hpurge : purge.Sound x) (signal : Option Signal) {m : Signal}
    (hm : m ∈ (x.create execution signal purge).accepted) :
    m ∈ (x.create execution signal purge).signals := by
  simp only [Flow.create, List.mem_append, List.mem_filter, decide_eq_true_eq] at hm ⊢
  rcases hm with hm | ⟨hm, hnot⟩
  · exact .inl hm
  · exact .inr ⟨hpurge.later m hm hnot, fun hsig => hnot (hpurge.signals m hsig)⟩

theorem create_heard {m : Signal} {signal : Option Signal}
    (hm : m ∈ (x.create execution signal purge).signals) :
    (execution, m) ∈ (x.create execution signal purge).heard :=
  List.mem_append_left _ (List.mem_map.2 ⟨m, hm, rfl⟩)

theorem create_sound (hx : x.Sound) (hpurge : purge.Sound x) (hsettled : x.Settled)
    (execution : Nat) (signal : Option Signal) : (x.create execution signal purge).Sound where
  waiting hnone := (by cases hnone)
  heard row hrow m hm := by
    cases hrow
    exact create_heard (create_signals hpurge signal hm)
  marked m hm := by
    simp only [Flow.create, List.mem_append, List.mem_filter, decide_eq_true_eq] at hm ⊢
    rcases hm with hm | ⟨hm, hnot⟩
    · exact .inl hm
    · exact .inr ⟨hx.marked m hm, hpurge.consumed m hm hnot⟩
  displaced row hrow := by
    simp only [Flow.create, List.mem_append, Option.mem_toList] at hrow
    rcases hrow with hrow | hrow
    · exact hsettled row hrow
    · exact hx.displaced row hrow

theorem create_later (hlt : ∀ row ∈ x.state, row.execution < execution) (signal : Option Signal)
    (purge : Purge) : x.Later (x.create execution signal purge) :=
  ⟨fun row hrow => ⟨_, rfl, Nat.le_of_lt (hlt row hrow)⟩, fun _ hm => List.mem_append_right _ hm,
    fun hnone => (by cases hnone)⟩

end flow

/-- Only the id and the workflow that the key is mapped to have records, and the latter one only. -/
structure Store.Sound (s : Store) : Prop where
  flows : ∀ f, (s.flows f).Sound
  fresh : ∀ f, ∀ row ∈ (s.flows f).state, row.execution < s.executions
  vacant : ∀ f, s.executions < f → s.flows f = {}
  mapped : ∀ f ∈ s.mapping, (s.flows f).state.isSome ∧ f ≠ 0
  keyed : ∀ f, f ≠ 0 → (s.flows f).state.isSome → s.mapping = some f
  single : ∀ f, f ≠ 0 → (s.flows f).displaced = []

structure Store.Later (s t : Store) : Prop where
  flows : ∀ f, (s.flows f).Later (t.flows f)
  mapping : ∀ f ∈ s.mapping, f ∈ t.mapping

/-- What a step of another call leaves to the holder of the reservation. -/
def Store.Leaves (s t : Store) (place : Nat) : Prop :=
  s.reserved = some place →
    t.reserved = some place ∧ ((s.flows 0).Settled → (s.flows 0).Unmoved (t.flows 0))

/-- A step of the call at `place`; the outside has no place. -/
structure Store.Moves (s t : Store) (place : Option Nat) : Prop where
  sound : t.Sound
  later : s.Later t
  leaves : ∀ other, place ≠ some other → s.Leaves t other

/-- A create without the signal is one of `start`, or the marker of the signal was found. -/
def Request.Fits (r : Request) (s : Store) (withSignal : Bool) : Prop :=
  withSignal = false → ∀ m ∈ r.signal,
    r.byKey = false ∧ ((s.flows 0).state = none → m ∈ (s.flows 0).accepted)

/-- What a call knows of the store at each stage. -/
def Stage.Sound (s : Store) (place : Nat) (r : Request) : Stage → Prop
  | .resolvingKey | .requiringWinner => r.byKey = true
  | .readingRecord f | .readingTarget f | .resolvingWinner f _ => r.Names s f
  | .signalling f e | .deduping f e | .buffering f e =>
    r.Names s f ∧ ∃ row ∈ (s.flows f).state, e ≤ row.execution
  | .reserving withSignal _ => r.Fits s withSignal
  | .deciding withSignal _ => r.Fits s withSignal ∧ r.byKey = false ∧ s.reserved = some place
  | .collecting withSignal _ =>
    r.Fits s withSignal ∧ r.byKey = false ∧ s.reserved = some place ∧ (s.flows 0).Settled ∧
      (s.flows 0).state ≠ none
  | .committing withSignal _ purge =>
    r.Fits s withSignal ∧ (r.byKey = false → s.reserved = some place ∧ (s.flows 0).Settled ∧
      purge.Sound (s.flows 0) ∧ ((s.flows 0).state = none → purge = {}))
  | .launching f e =>
    (r.byKey = false → s.reserved = some place) ∧ r.Names s f ∧ (s.flows f).state.isSome ∧
      ∀ m ∈ r.signal, (e, m) ∈ (s.flows f).heard
  | .resolvingCallerId _ | .awaitingReservation _ _ _ | .rereading _ _ => r.byKey = false
  | .started f e => Call.Kept s ⟨r, .started f e⟩
  | .joined f => Call.Kept s ⟨r, .joined f⟩
  | .signalled f e => Call.Kept s ⟨r, .signalled f e⟩
  | .failed => True

section later

variable {s t : Store} {r : Request} {f e place : Nat}

theorem Request.Names.later (hlater : s.Later t) (h : r.Names s f) : r.Names t f := by
  unfold Request.Names at h ⊢
  split_ifs at h ⊢ with hkey
  · exact hlater.mapping f h
  · exact h

theorem isSome_later (hlater : s.Later t) (h : (s.flows f).state.isSome) :
    (t.flows f).state.isSome := by
  obtain ⟨row, hrow⟩ := Option.isSome_iff_exists.1 h
  obtain ⟨row', hrow', -⟩ := (hlater.flows f).state row hrow
  exact Option.isSome_iff_exists.2 ⟨row', hrow'⟩

theorem execution_later (hlater : s.Later t) (h : ∃ row ∈ (s.flows f).state, e ≤ row.execution) :
    ∃ row ∈ (t.flows f).state, e ≤ row.execution := by
  obtain ⟨row, hrow, hle⟩ := h
  obtain ⟨row', hrow', hle'⟩ := (hlater.flows f).state row hrow
  exact ⟨row', hrow', hle.trans hle'⟩

theorem Request.Fits.later {withSignal : Bool} (hlater : s.Later t) (h : r.Fits s withSignal) :
    r.Fits t withSignal := by
  intro hplain m hm
  obtain ⟨hid, haccepted⟩ := h hplain m hm
  refine ⟨hid, fun hnone => ?_⟩
  have hbefore : (s.flows 0).state = none := by
    cases hstate : (s.flows 0).state with
    | none => rfl
    | some row =>
      obtain ⟨row', hrow', -⟩ := (hlater.flows 0).state row hstate
      rw [hnone] at hrow'
      cases hrow'
  exact (hlater.flows 0).accepted hnone m (haccepted hbefore)

theorem Flow.Unmoved.settled {x y : Flow} (h : x.Unmoved y) (hx : x.Settled) : y.Settled := by
  intro row hrow
  rw [h.state] at hrow
  exact hx row hrow

/-- A call knows after a step of another one what it knew before. -/
theorem Stage.Sound.later {stage : Stage} (hlater : s.Later t) (hleaves : s.Leaves t place)
    (h : stage.Sound s place r) : stage.Sound t place r := by
  cases stage with
  | resolvingKey | requiringWinner | resolvingCallerId | awaitingReservation | rereading => exact h
  | readingRecord | readingTarget | resolvingWinner => exact Request.Names.later hlater h
  | signalling | deduping | buffering => exact ⟨h.1.later hlater, execution_later hlater h.2⟩
  | reserving => exact Request.Fits.later hlater h
  | deciding => exact ⟨h.1.later hlater, h.2.1, (hleaves h.2.2).1⟩
  | collecting =>
    obtain ⟨hfits, hid, hreserved, hsettled, hsome⟩ := h
    obtain ⟨hreserved', hunmoved⟩ := hleaves hreserved
    refine ⟨hfits.later hlater, hid, hreserved', (hunmoved hsettled).settled hsettled, ?_⟩
    rw [(hunmoved hsettled).state]
    exact hsome
  | committing =>
    refine ⟨h.1.later hlater, fun hid => ?_⟩
    obtain ⟨hreserved, hsettled, hpurge, hempty⟩ := h.2 hid
    obtain ⟨hreserved', hunmoved⟩ := hleaves hreserved
    have hstays := hunmoved hsettled
    refine ⟨hreserved', hstays.settled hsettled, hstays.purge _ hpurge, ?_⟩
    rw [hstays.state]
    exact hempty
  | launching =>
    obtain ⟨hreserved, hnames, hsome, hheard⟩ := h
    exact ⟨fun hid => (hleaves (hreserved hid)).1, hnames.later hlater, isSome_later hlater hsome,
      fun m hm => (hlater.flows _).heard _ (hheard m hm)⟩
  | started =>
    obtain ⟨hnames, hsome, hheard⟩ := h
    exact ⟨hnames.later hlater, isSome_later hlater hsome,
      fun m hm => (hlater.flows _).heard _ (hheard m hm)⟩
  | joined => exact ⟨h.1.later hlater, isSome_later hlater h.2⟩
  | signalled =>
    obtain ⟨hnames, hsome, hheard⟩ := h
    refine ⟨hnames.later hlater, isSome_later hlater hsome, fun m hm => ?_⟩
    obtain ⟨e', hle, hmem⟩ := hheard m hm
    exact ⟨e', hle, (hlater.flows _).heard _ hmem⟩
  | failed => trivial

end later

section moves

variable {s : Store} {x : Flow} {f place : Nat} {actor : Option Nat}

theorem put_flows (s : Store) (f : Nat) (x : Flow) (g : Nat) :
    (s.put f x).flows g = if g = f then x else s.flows g :=
  Function.update_apply s.flows f x g

theorem Store.Later.refl (s : Store) : s.Later s := ⟨fun _ => .refl _, fun _ h => h⟩

theorem moves_refl (hs : s.Sound) : s.Moves s actor :=
  ⟨hs, .refl s, fun _ _ hreserved => ⟨hreserved, fun _ => .refl _⟩⟩

theorem put_later {executions : Nat} {mapping : Option Nat} (hlater : (s.flows f).Later x)
    (hmapping : ∀ g ∈ s.mapping, g ∈ mapping) :
    s.Later { s.put f x with executions := executions, mapping := mapping } := by
  refine ⟨fun g => ?_, hmapping⟩
  change (s.flows g).Later ((s.put f x).flows g)
  rw [put_flows]
  split_ifs with hg
  · rw [hg]
    exact hlater
  · exact .refl _

/-- A write to a workflow that has its record, or to the one of the id, without a create. -/
theorem moves_put (hs : s.Sound) (hx : x.Sound) (hlater : (s.flows f).Later x)
    (hfresh : ∀ row ∈ x.state, row.execution < s.executions)
    (hknown : f = 0 ∨ (s.flows f).state.isSome) (hdisplaced : x.displaced = (s.flows f).displaced)
    (hunmoved : s.reserved ≠ none → (s.flows f).Settled → (s.flows f).Unmoved x) :
    s.Moves (s.put f x) actor where
  sound := by
    constructor
    · intro g
      rw [put_flows]
      split_ifs
      · exact hx
      · exact hs.flows g
    · intro g row hrow
      rw [put_flows] at hrow
      split_ifs at hrow
      · exact hfresh row hrow
      · exact hs.fresh g row hrow
    · intro g hg
      rw [put_flows]
      split_ifs with hgf
      · subst hgf
        rcases hknown with rfl | hsome
        · cases hg
        · rw [hs.vacant g hg] at hsome
          cases hsome
      · exact hs.vacant g hg
    · intro g hg
      obtain ⟨hsome, hne⟩ := hs.mapped g hg
      exact ⟨isSome_later (put_later hlater fun _ h => h) hsome, hne⟩
    · intro g hne hsome
      rw [put_flows] at hsome
      split_ifs at hsome with hgf
      · subst hgf
        exact hs.keyed g hne (hknown.resolve_left hne)
      · exact hs.keyed g hne hsome
    · intro g hne
      rw [put_flows]
      split_ifs with hgf
      · rw [hdisplaced, ← hgf]
        exact hs.single g hne
      · exact hs.single g hne
  later := put_later hlater fun _ h => h
  leaves other _ hreserved := by
    refine ⟨hreserved, fun hsettled => ?_⟩
    rw [put_flows]
    split_ifs with hf
    · subst hf
      refine hunmoved ?_ hsettled
      rw [hreserved]
      exact nofun
    · exact .refl _

theorem reservation_sound (hs : s.Sound) (reserved : Option Nat) :
    Store.Sound { s with reserved := reserved } :=
  ⟨hs.flows, hs.fresh, hs.vacant, hs.mapped, hs.keyed, hs.single⟩

/-- The reservation is taken or given back. -/
theorem moves_reservation (hs : s.Sound) {reserved : Option Nat}
    (hheld : s.reserved = none ∨ s.reserved = some place) :
    s.Moves { s with reserved := reserved } (some place) where
  sound := reservation_sound hs reserved
  later := ⟨fun _ => .refl _, fun _ h => h⟩
  leaves other hother hreserved := by
    rcases hheld with hnone | hplace
    · rw [hnone] at hreserved
      cases hreserved
    · rw [hplace] at hreserved
      exact absurd hreserved hother

theorem moves_release (hs : s.Sound) {r : Request}
    (hheld : r.byKey = false → s.reserved = some place) :
    s.Moves (s.release r) (some place) := by
  unfold Store.release
  split_ifs with hkey
  · exact moves_refl hs
  · exact moves_reservation hs (.inr (hheld (Bool.not_eq_true _ ▸ hkey)))

theorem moves_buffer (hs : s.Sound) {signal : Signal}
    (hknown : f = 0 ∨ (s.flows f).state.isSome) (hnew : signal ∉ (s.flows f).accepted) :
    s.Moves (s.put f ((s.flows f).buffer signal)) actor :=
  moves_put hs (buffer_sound (hs.flows f) signal) (buffer_later _ signal) (hs.fresh f) hknown rfl
    fun _ _ => buffer_unmoved hnew

variable {signal : Option Signal}

/-- A create under the id, by the holder of the reservation. -/
theorem moves_create (hs : s.Sound) {purge : Purge} (hreserved : s.reserved = some place)
    (hsettled : (s.flows 0).Settled) (hpurge : purge.Sound (s.flows 0)) :
    s.Moves { s.put 0 ((s.flows 0).create s.executions signal purge) with
      executions := s.executions + 1 } (some place) where
  sound := by
    constructor
    · intro g
      change ((s.put 0 _).flows g).Sound
      rw [put_flows]
      split_ifs
      · exact create_sound (hs.flows 0) hpurge hsettled _ _
      · exact hs.flows g
    · intro g row hrow
      change row ∈ ((s.put 0 _).flows g).state at hrow
      change row.execution < s.executions + 1
      rw [put_flows] at hrow
      split_ifs at hrow
      · cases hrow
        exact Nat.lt_succ_self _
      · exact Nat.lt_succ_of_lt (hs.fresh g row hrow)
    · intro g hg
      have hlt : s.executions < g := Nat.lt_of_succ_lt hg
      change (s.put 0 _).flows g = {}
      rw [put_flows, if_neg (Nat.ne_zero_of_lt hlt)]
      exact hs.vacant g hlt
    · intro g hg
      obtain ⟨hsome, hne⟩ := hs.mapped g hg
      refine ⟨?_, hne⟩
      change ((s.put 0 _).flows g).state.isSome
      rw [put_flows, if_neg hne]
      exact hsome
    · intro g hne hsome
      change ((s.put 0 _).flows g).state.isSome at hsome
      rw [put_flows, if_neg hne] at hsome
      exact hs.keyed g hne hsome
    · intro g hne
      change ((s.put 0 _).flows g).displaced = []
      rw [put_flows, if_neg hne]
      exact hs.single g hne
  later := put_later (create_later (hs.fresh 0) _ _) fun _ h => h
  leaves other hother hother' := absurd (hreserved.symm.trans hother') hother

/-- The create under the key, which has no mapping yet. -/
theorem moves_createKeyed (hs : s.Sound) (hmapping : s.mapping = none) :
    s.Moves { s.put (s.executions + 1)
      ((s.flows (s.executions + 1)).create s.executions signal {}) with
      mapping := some (s.executions + 1)
      executions := s.executions + 1 } actor where
  sound := by
    have hvacant := hs.vacant _ (Nat.lt_succ_self s.executions)
    have hnone : (s.flows (s.executions + 1)).state = none := by rw [hvacant]
    have hunkeyed : ∀ g, g ≠ 0 → (s.flows g).state.isSome = true → False := by
      intro g hne hsome
      have hmapped := hs.keyed g hne hsome
      rw [hmapping] at hmapped
      cases hmapped
    constructor
    · intro g
      change ((s.put _ _).flows g).Sound
      rw [put_flows]
      split_ifs
      · refine create_sound (hs.flows _) (empty_purge_sound (hs.flows _) hnone) ?_ _ _
        intro row hrow
        rw [hnone] at hrow
        cases hrow
      · exact hs.flows g
    · intro g row hrow
      change row ∈ ((s.put _ _).flows g).state at hrow
      change row.execution < s.executions + 1
      rw [put_flows] at hrow
      split_ifs at hrow
      · cases hrow
        exact Nat.lt_succ_self _
      · exact Nat.lt_succ_of_lt (hs.fresh g row hrow)
    · intro g hg
      have hlt : s.executions + 1 < g := hg
      change (s.put _ _).flows g = {}
      rw [put_flows, if_neg (Nat.ne_of_gt hlt)]
      exact hs.vacant g (Nat.lt_of_succ_lt hlt)
    · intro g hg
      cases hg
      refine ⟨?_, Nat.succ_ne_zero _⟩
      change ((s.put _ _).flows _).state.isSome
      rw [put_flows, if_pos rfl]
      rfl
    · intro g hne hsome
      change ((s.put _ _).flows g).state.isSome at hsome
      rw [put_flows] at hsome
      split_ifs at hsome with hg
      · rw [hg]
      · exact (hunkeyed g hne hsome).elim
    · intro g hne
      change ((s.put _ _).flows g).displaced = []
      rw [put_flows]
      split_ifs
      · simp [Flow.create, hvacant]
      · exact hs.single g hne
  later := by
    refine put_later (create_later (hs.fresh _) _ _) fun g hg => ?_
    rw [hmapping] at hg
    cases hg
  leaves other _ hreserved := by
    refine ⟨hreserved, fun _ => ?_⟩
    dsimp only
    rw [put_flows, if_neg (Nat.succ_ne_zero _).symm]
    exact .refl _

end moves

section act

variable {s t : Store} {r : Request} {place : Nat} {ok : Bool} {next : Stage}

/-- The call at `place` moves the store and knows what it has to at its next stage. -/
structure Advances (s t : Store) (place : Nat) (r : Request) (next : Stage) : Prop where
  moves : s.Moves t (some place)
  stage : next.Sound t place r

theorem Advances.of_read (hs : s.Sound) (hnext : next.Sound s place r) :
    Advances s s place r next :=
  ⟨moves_refl hs, hnext⟩

/-- The reservation is given back by a call that then knows no more than its request. -/
theorem Advances.of_release (hs : s.Sound) (hheld : r.byKey = false → s.reserved = some place)
    (hnext : ∀ t : Store, s.Later t → next.Sound t place r) :
    Advances s (s.release r) place r next :=
  have hmoves := moves_release hs hheld
  ⟨hmoves, hnext _ hmoves.later⟩

theorem names_of_id (hid : r.byKey = false) : r.Names s 0 := by
  unfold Request.Names
  rw [hid]
  rfl

theorem names_of_key (hkey : r.byKey = true) {f : Nat} (hf : s.mapping = some f) :
    r.Names s f := by
  unfold Request.Names
  rw [hkey]
  exact hf

theorem fits_true : r.Fits s true := nofun

theorem alreadyExists_sound (hid : r.byKey = false) (attempt : Nat) :
    (r.alreadyExists attempt).Sound s place r := by
  unfold Request.alreadyExists
  split
  · trivial
  · exact hid

theorem retryCreate_sound (attempt : Nat) : (retryCreate attempt).Sound s place r := by
  unfold retryCreate
  split_ifs
  · exact fits_true
  · trivial

/-- The signal of a marker is buffered for the run that is there. -/
theorem signalled_of_accepted (hs : s.Sound) {f e : Nat} (hnames : r.Names s f)
    (hrow : ∃ row ∈ (s.flows f).state, e ≤ row.execution)
    (haccepted : ∀ m ∈ r.signal, m ∈ (s.flows f).accepted) :
    Stage.Sound s place r (.signalled f e) := by
  obtain ⟨row, hrow, hle⟩ := hrow
  refine ⟨hnames, Option.isSome_iff_exists.2 ⟨row, hrow⟩, fun m hm => ?_⟩
  exact ⟨row.execution, hle, (hs.flows f).heard row hrow m (haccepted m hm)⟩

theorem act_buffering (hs : s.Sound) {f e : Nat} (hst : Stage.Sound s place r (.buffering f e))
    (h : act s place r ok (.buffering f e) = some (t, next)) : Advances s t place r next := by
  obtain ⟨hnames, hrow⟩ := hst
  simp only [act] at h
  split at h
  · cases h
  · rename_i signal hsignal
    split_ifs at h with hok haccepted
    · cases h
      refine .of_read hs (signalled_of_accepted hs hnames hrow fun m hm => ?_)
      rw [hsignal] at hm
      cases hm
      exact haccepted
    · cases h
      obtain ⟨row, hmem, hle⟩ := hrow
      have hsome : (s.flows f).state.isSome := Option.isSome_iff_exists.2 ⟨row, hmem⟩
      have hmoves : s.Moves (s.put f ((s.flows f).buffer signal)) (some place) :=
        moves_buffer hs (.inr hsome) haccepted
      refine ⟨hmoves, hnames.later hmoves.later, isSome_later hmoves.later hsome, fun m hm => ?_⟩
      have heq : m = signal := by
        change r.signal = some m at hm
        rw [hsignal] at hm
        exact (Option.some.inj hm).symm
      refine ⟨row.execution, hle, ?_⟩
      rw [put_flows, if_pos rfl, heq]
      exact mem_buffer_heard hmem
    · cases h
      exact .of_read hs trivial

variable {withSignal : Bool} {attempt : Nat}

theorem act_deciding (hs : s.Sound) (hst : Stage.Sound s place r (.deciding withSignal attempt))
    (h : act s place r ok (.deciding withSignal attempt) = some (t, next)) :
    Advances s t place r next := by
  obtain ⟨hfits, hid, hreserved⟩ := hst
  simp only [act] at h
  split at h
  · rename_i hnone
    cases h
    refine .of_read hs ⟨hfits, fun _ => ⟨hreserved, ?_, empty_purge_sound (hs.flows 0) hnone,
      fun _ => rfl⟩⟩
    intro row hrow
    rw [hnone] at hrow
    cases hrow
  · rename_i row hrow
    split_ifs at h with hrestart hok
    · cases h
      rw [Bool.and_eq_true] at hrestart
      refine .of_read hs ⟨hfits, hid, hreserved, ?_, ?_⟩
      · intro row' hrow'
        rw [hrow] at hrow'
        obtain rfl := Option.some.inj hrow'
        exact hrestart.2
      · rw [hrow]
        exact nofun
    · cases h
      exact .of_release hs (fun _ => hreserved) fun _ _ => trivial
    · cases h
      exact .of_release hs (fun _ => hreserved) fun _ _ => alreadyExists_sound hid attempt

variable {purge : Purge}

/-- The signal of the call is in the buffer of the run that it creates under the id: it is in the
batch, or there was no run and the signal waited for one. -/
theorem create_has_signal (hs : s.Sound)
    (hst : Stage.Sound s place r (.committing withSignal attempt purge)) (hid : r.byKey = false)
    (hin : Call.inTime s ⟨r, .committing withSignal attempt purge⟩ = true) {m : Signal}
    (hm : m ∈ r.signal) :
    m ∈ ((s.flows 0).create s.executions (if withSignal then r.signal
      else none) purge).signals := by
  cases withSignal with
  | true =>
    change r.signal = some m at hm
    simp [Flow.create, hm]
  | false =>
    have hnone : (s.flows 0).state = none := by
      change r.signal = some m at hm
      simpa [Call.inTime, hm] using hin
    obtain ⟨-, -, -, hempty⟩ := hst.2 hid
    obtain rfl := hempty hnone
    have hwaits := (hs.flows 0).waiting hnone m ((hst.1 rfl m hm).2 hnone)
    simp [Flow.create, hwaits]

theorem act_commitCallerId (hs : s.Sound)
    (hst : Stage.Sound s place r (.committing withSignal attempt purge)) (hid : r.byKey = false)
    (hin : Call.inTime s ⟨r, .committing withSignal attempt purge⟩ = true)
    (h : commitCallerId s r withSignal attempt purge = (t, next)) : Advances s t place r next := by
  obtain ⟨hreserved, hsettled, hpurge, -⟩ := hst.2 hid
  have hhas := fun m => create_has_signal hs hst hid hin (m := m)
  simp only [commitCallerId] at h
  generalize hsignal : (if withSignal then r.signal else none) = signal at h hhas
  split_ifs at h with hmarked
  -- The batch is lost to a marker: the call goes on to create without its signal.
  · cases h
    refine .of_release hs (fun _ => hreserved) fun t hlater => ?_
    refine Request.Fits.later hlater fun _ m hm => ⟨hid, fun _ => ?_⟩
    change r.signal = some m at hm
    cases withSignal with
    | true =>
      obtain rfl : signal = some m := hsignal.symm.trans hm
      simpa using hmarked
    | false =>
      obtain rfl : signal = none := hsignal.symm
      cases hmarked
  · cases h
    refine ⟨moves_create hs hreserved hsettled hpurge, fun _ => hreserved, names_of_id hid, ?_,
      fun m hm => ?_⟩
    · change ((s.put 0 _).flows 0).state.isSome
      rw [put_flows, if_pos rfl]
      rfl
    · change (s.executions, m) ∈ ((s.put 0 _).flows 0).heard
      rw [put_flows, if_pos rfl]
      exact create_heard (hhas m hm)

theorem act_commitKeyed (hs : s.Sound)
    (hst : Stage.Sound s place r (.committing withSignal attempt purge)) (hkey : r.byKey = true)
    (h : commitKeyed s r withSignal = (t, next)) : Advances s t place r next := by
  simp only [commitKeyed] at h
  split at h
  · cases h
    exact .of_read hs hkey
  · rename_i hmapping
    cases h
    refine ⟨moves_createKeyed hs hmapping, fun hid => ?_, names_of_key hkey rfl, ?_, fun m hm => ?_⟩
    · rw [hkey] at hid
      cases hid
    · change ((s.put (s.executions + 1) _).flows (s.executions + 1)).state.isSome
      rw [put_flows, if_pos rfl]
      rfl
    · change (s.executions, m) ∈ ((s.put (s.executions + 1) _).flows (s.executions + 1)).heard
      rw [put_flows, if_pos rfl]
      apply create_heard
      cases withSignal with
      | true =>
        change r.signal = some m at hm
        simp [Flow.create, hm]
      | false =>
        have hid := (hst.1 rfl m hm).1
        rw [hkey] at hid
        cases hid

/-- The read of a run that may be signalled. -/
theorem signalling_sound {f : Nat} {row : Row} (hnames : r.Names s f)
    (hrow : (s.flows f).state = some row) : Stage.Sound s place r (.signalling f row.execution) :=
  ⟨hnames, row, hrow, Nat.le_refl _⟩

/-- One step of a call. -/
theorem act_advances (hs : s.Sound) {stage : Stage} (hst : stage.Sound s place r)
    (hin : Call.inTime s ⟨r, stage⟩ = true) (h : act s place r ok stage = some (t, next)) :
    Advances s t place r next := by
  cases stage with
  | resolvingKey =>
    simp only [act] at h
    split at h
    · cases h
      refine .of_read hs fun hplain m hm => ?_
      rw [Option.isSome_eq_false_iff, Option.isNone_iff_eq_none] at hplain
      rw [hplain] at hm
      cases hm
    · rename_i f hf
      cases h
      refine .of_read hs ?_
      split_ifs
      · exact names_of_key hst hf
      · exact names_of_key hst hf
  | readingRecord f =>
    simp only [act] at h
    cases h
    refine .of_read hs ?_
    split_ifs with hsome
    · exact ⟨hst, hsome⟩
    · trivial
  | readingTarget f =>
    simp only [act] at h
    split at h
    · cases h
      refine .of_read hs ?_
      split_ifs
      · trivial
      · exact fits_true
    · rename_i row hrow
      split_ifs at h
      · cases h
        exact .of_read hs fits_true
      · cases h
        exact .of_read hs trivial
      · cases h
        exact .of_read hs (signalling_sound hst hrow)
  | signalling f e =>
    have hlive : (s.flows f).state.any (·.terminal) = false := by
      simpa [Call.inTime] using hin
    simp only [act, hlive] at h
    cases h
    refine .of_read hs ?_
    split_ifs
    · exact hst
    · trivial
  | deduping f e =>
    simp only [act] at h
    split_ifs at h with hmarked
    · cases h
      refine .of_read hs (signalled_of_accepted hs hst.1 hst.2 fun m hm => ?_)
      change r.signal = some m at hm
      simpa [hm] using hmarked
    · cases h
      exact .of_read hs hst
  | buffering f e => exact act_buffering hs hst h
  | reserving withSignal attempt =>
    simp only [act] at h
    split_ifs at h with hkey hreserved
    · cases h
      refine .of_read hs ⟨hst, fun hid => ?_⟩
      rw [hkey] at hid
      cases hid
    · cases h
      exact .of_read hs (alreadyExists_sound (Bool.not_eq_true _ ▸ hkey) attempt)
    · cases h
      rw [Option.not_isSome_iff_eq_none] at hreserved
      exact ⟨moves_reservation hs (.inl hreserved), hst, Bool.not_eq_true _ ▸ hkey, rfl⟩
  | deciding => exact act_deciding hs hst h
  | collecting withSignal attempt =>
    obtain ⟨hfits, hid, hreserved, hsettled, hsome⟩ := hst
    simp only [act] at h
    split_ifs at h
    · cases h
      exact .of_read hs ⟨hfits, fun _ => ⟨hreserved, hsettled, collected_purge_sound (hs.flows 0),
        fun hnone => absurd hnone hsome⟩⟩
    · cases h
      exact .of_release hs (fun _ => hreserved) fun _ _ => trivial
  | committing withSignal attempt purge =>
    simp only [act] at h
    split_ifs at h with hok hkey
    · exact act_commitKeyed hs hst hkey (Option.some.inj h)
    · exact act_commitCallerId hs hst (Bool.not_eq_true _ ▸ hkey) hin (Option.some.inj h)
    · cases h
      exact .of_release hs (fun hid => (hst.2 hid).1) fun _ _ => trivial
  | launching f e =>
    obtain ⟨hreserved, hnames, hsome, hheard⟩ := hst
    simp only [act] at h
    cases h
    refine .of_release hs hreserved fun t hlater => ?_
    split_ifs
    · exact ⟨hnames.later hlater, isSome_later hlater hsome,
        fun m hm => (hlater.flows f).heard _ (hheard m hm)⟩
    · trivial
  | requiringWinner =>
    simp only [act] at h
    split at h
    · cases h
      exact .of_read hs trivial
    · rename_i f hf
      cases h
      refine .of_read hs ?_
      split_ifs
      · exact names_of_key hst hf
      · exact names_of_key hst hf
  | resolvingWinner f attempt =>
    simp only [act] at h
    split at h
    · cases h
      refine .of_read hs ?_
      split_ifs
      · exact hst
      · trivial
    · rename_i row hrow
      cases h
      refine .of_read hs ?_
      split_ifs
      · trivial
      · exact signalling_sound hst hrow
  | resolvingCallerId attempt =>
    simp only [act] at h
    split at h
    · cases h
      exact .of_read hs hst
    · rename_i row hrow
      split_ifs at h
      · cases h
        exact .of_read hs hst
      · cases h
        exact .of_read hs trivial
      · cases h
        exact .of_read hs (signalling_sound (names_of_id hst) hrow)
  | awaitingReservation seen waits attempt =>
    simp only [act] at h
    split_ifs at h
    · cases h
      exact .of_read hs hst
    · cases h
      exact .of_read hs hst
  | rereading seen attempt =>
    simp only [act] at h
    split at h
    · cases h
      exact .of_read hs (retryCreate_sound attempt)
    · rename_i row hrow
      split_ifs at h
      · cases h
        exact .of_read hs (retryCreate_sound attempt)
      · cases h
        exact .of_read hs trivial
      · cases h
        exact .of_read hs (signalling_sound (names_of_id hst) hrow)
  | started | joined | signalled | failed => cases h

end act

/-- What holds in every state of a run that stays clear of the slips. -/
structure World.Sound (w : World) : Prop where
  store : w.store.Sound
  calls : ∀ (i : Nat) (call : Call), w.calls[i]? = some call →
    call.stage.Sound w.store i call.request

theorem begin_sound (s : Store) (place : Nat) (r : Request) :
    (begin r).stage.Sound s place r := by
  unfold begin
  split_ifs with hkey hsignal
  · exact hkey
  · exact names_of_id (Bool.not_eq_true _ ▸ hkey)
  · intro _ m hm
    rw [Option.not_isSome_iff_eq_none] at hsignal
    rw [hsignal] at hm
    cases hm

variable {w : World}

/-- A step of the outside. -/
theorem sound_of_moves {t : Store} (hw : w.Sound) (hmoves : w.store.Moves t none) :
    World.Sound { w with store := t } :=
  ⟨hmoves.sound, fun i call hi => (hw.calls i call hi).later hmoves.later (hmoves.leaves i nofun)⟩

theorem sound_of_advances {t : Store} {place : Nat} {call : Call} {next : Stage} (hw : w.Sound)
    (h : Advances w.store t place call.request next) :
    World.Sound ⟨t, w.calls.set place { call with stage := next }⟩ := by
  refine ⟨h.moves.sound, fun i other hi => ?_⟩
  obtain ⟨rfl, rfl⟩ | ⟨hne, hother⟩ := getElem?_set_cases hi
  · exact h.stage
  · exact (hw.calls i other hother).later h.moves.later
      (h.moves.leaves i fun heq => hne (Option.some.inj heq).symm)

theorem moves_live {s : Store} {x y : Flow} {f e : Nat} (hs : s.Sound) (hf : s.flows f = x)
    (hlive : x.state = some ⟨e, false⟩) (hy : y.Sound) (hlater : x.Later y)
    (hstate : ∃ terminal, y.state = some ⟨e, terminal⟩) (hdisplaced : y.displaced = x.displaced) :
    s.Moves (s.put f y) none := by
  subst hf
  refine moves_put hs hy hlater ?_ (.inr (by rw [hlive]; rfl)) hdisplaced ?_
  · intro row hrow
    obtain ⟨terminal, hterminal⟩ := hstate
    rw [hterminal] at hrow
    cases hrow
    exact hs.fresh f ⟨e, false⟩ hlive
  · exact fun _ hsettled => absurd hsettled (not_settled_of_live hlive)

theorem step_sound {w w' : World} {event : Event} (hw : w.Sound) (hin : inTime w event = true)
    (h : step w event = some w') : w'.Sound := by
  cases event with
  | begin r =>
    simp only [step] at h
    split_ifs at h
    cases h
    refine ⟨hw.store, fun i call hi => ?_⟩
    obtain ⟨-, hbefore⟩ | ⟨-, rfl⟩ := getElem?_concat_cases hi
    · exact hw.calls i call hbefore
    · exact begin_sound w.store i r
  | proceed place ok =>
    simp only [step] at h
    obtain ⟨call, hcall, h⟩ := Option.bind_eq_some_iff.1 h
    obtain ⟨⟨t, next⟩, hact, rfl⟩ := Option.map_eq_some_iff.1 h
    have htimely : call.inTime w.store = true := by
      simpa [inTime, hcall] using hin
    exact sound_of_advances hw
      (act_advances hw.store (hw.calls place call hcall) htimely hact)
  | finish f =>
    simp only [step] at h
    obtain ⟨x, hx, rfl⟩ := Option.map_eq_some_iff.1 h
    obtain ⟨e, he, hstate⟩ := finish_eq hx
    refine sound_of_moves hw (moves_live hw.store rfl he (finish_sound (hw.store.flows f) hx)
      (finish_later hx) ⟨true, ?_⟩ ?_)
    · rw [hstate]
    · rw [hstate]
  | consume f signal =>
    simp only [step] at h
    obtain ⟨x, hx, rfl⟩ := Option.map_eq_some_iff.1 h
    obtain ⟨e, he, hstate⟩ := consume_eq hx
    refine sound_of_moves hw (moves_live hw.store rfl he (consume_sound (hw.store.flows f) hx)
      (consume_later hx) ⟨false, ?_⟩ ?_)
    · rw [hstate]
      exact he
    · rw [hstate]
  | deliver f signal =>
    simp only [step] at h
    split_ifs at h with hknown
    cases h
    exact sound_of_moves hw (moves_buffer hw.store hknown.1 hknown.2)
  | cleanup f =>
    simp only [step] at h
    split_ifs at h with hreserved
    obtain ⟨x, hx, rfl⟩ := Option.map_eq_some_iff.1 h
    obtain ⟨e, he, hstate⟩ := cleanup_eq hx
    refine sound_of_moves hw (moves_put hw.store (cleanup_sound (hw.store.flows f) hx)
      (cleanup_later hx) ?_ (.inr (by rw [he]; rfl)) ?_ fun hheld => absurd hreserved hheld)
    · rw [hstate]
      exact hw.store.fresh f
    · rw [hstate]

theorem initial_sound : World.Sound {} := by
  refine ⟨?_, fun i call hi => (by cases hi)⟩
  constructor
  · exact fun _ => ⟨fun _ _ hm => (by cases hm), fun _ hrow => (by cases hrow),
      fun _ hm => (by cases hm), fun _ hrow => (by cases hrow)⟩
  · exact fun _ _ hrow => (by cases hrow)
  · exact fun _ _ => rfl
  · exact fun _ hf => (by cases hf)
  · exact fun _ _ hsome => (by cases hsome)
  · exact fun _ _ => rfl

theorem World.Sound.convergent (hw : w.Sound) : Convergent w where
  alone f := (hw.store.flows f).displaced
  keyed f hne hsome := ⟨hw.store.keyed f hne hsome, hw.store.single f hne⟩
  kept i call hi := by
    have hsound := hw.calls i call hi
    obtain ⟨r, stage⟩ := call
    cases stage with
    | started | joined | signalled => exact hsound
    | _ => trivial

/-- Calls that stay clear of the slips converge, however their steps interleave. -/
theorem starts_converge (events : List Event)
    (hin : machine.EveryStep (fun w event => inTime w event = true) {} events) :
    machine.EveryState Convergent {} events := by
  have hsound : machine.EveryState World.Sound {} events := by
    refine Machine.everyState_of_invariant ?_ initial_sound hin
    intro w event w' hw htimely hstep
    exact step_sound hw htimely hstep
  exact hsound.mono fun _ hw => hw.convergent

/-- Two calls for one id: the second one finds the reservation of the first, reads the record that
the first has written in the meantime and signals its run. -/
theorem starts_converge_on_winner :
    machine.EveryState Convergent {}
      [.begin ⟨some ⟨"go", "s1"⟩, false, true⟩, .begin ⟨some ⟨"go", "s2"⟩, false, true⟩,
        .proceed 0 true, .proceed 1 true, .proceed 0 true, .proceed 1 true, .proceed 0 true,
        .proceed 0 true, .proceed 1 true, .proceed 0 true, .proceed 1 true, .proceed 1 true,
        .proceed 1 true] :=
  starts_converge _ (by decide)

/-- The run ends between the read of `startOrSignal` and that of the signal, which is then dropped;
the call reports that it has signalled the run. -/
theorem signal_dropped :
    ¬ machine.EveryState Convergent {}
      [.begin ⟨none, false, false⟩, .proceed 0 true, .proceed 0 true, .proceed 0 true,
        .proceed 0 true, .begin ⟨some ⟨"go", "s1"⟩, false, false⟩, .proceed 1 true, .finish 0,
        .proceed 1 true] := by
  intro hconvergent
  have hkept := hconvergent.final.kept 1 ⟨⟨some ⟨"go", "s1"⟩, false, false⟩, .signalled 0 0⟩ rfl
  obtain ⟨-, -, hheard⟩ := hkept
  obtain ⟨e, -, hmem⟩ := hheard ⟨"go", "s1"⟩ rfl
  cases hmem

end Weft.Start.Convergence
