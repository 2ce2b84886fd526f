import Weft.Tail.Model

/-! That a tail loses nothing, as long as no new frame is taken for an entry of the history. -/

namespace Weft.Tail

open Weft.Lib

universe u

variable {δ : Type u}

section Overlap

variable {α : Type*} {equal : α → α → Bool}

theorem dropOverlappingLiveFrames_nil (buffered : List α) :
    dropOverlappingLiveFrames equal [] buffered = buffered := by
  induction buffered with
  | nil => rfl
  | cons live buffered ih =>
    rw [dropOverlappingLiveFrames, if_neg (by simp), ih]

/-- Taking out the first entry equal to `y` takes one entry from those equal to `x`, if `x` and
`y` are equal, and none otherwise. -/
theorem countP_eraseP_equal (hsymm : ∀ a b, equal a b = equal b a)
    (htrans : ∀ a b c, equal a b = true → equal b c = true → equal a c = true) {history : List α}
    {x y : α} (hany : (history.any fun entry => equal entry y) = true) :
    history.countP (fun entry => equal entry x) =
      (history.eraseP fun entry => equal entry y).countP (fun entry => equal entry x) +
        if equal y x then 1 else 0 := by
  obtain ⟨found, hfound, hequal⟩ := List.any_eq_true.1 hany
  obtain ⟨entry, before, after, hbefore, hentry, hsplit, herased⟩ :=
    List.exists_of_eraseP (p := fun entry => equal entry y) hfound hequal
  have hsame : equal entry x = equal y x := by
    by_cases hyx : equal y x = true
    · rw [hyx, htrans entry y x hentry hyx]
    · refine (Bool.eq_false_iff.2 fun hex => hyx ?_).trans (Bool.eq_false_iff.2 hyx).symm
      exact htrans y entry x (hsymm entry y ▸ hentry) hex
  rw [herased, hsplit, List.countP_append, List.countP_append, List.countP_cons, hsame]
  exact (Nat.add_assoc _ _ _).symm

/-- A frame stays where the frames before it use up the entries equal to it. -/
theorem mem_dropOverlappingLiveFrames (hsymm : ∀ a b, equal a b = equal b a)
    (htrans : ∀ a b c, equal a b = true → equal b c = true → equal a c = true) {x : α}
    {earlier later : List α} {history : List α}
    (hcount : history.countP (fun entry => equal entry x) ≤
      earlier.countP fun frame => equal frame x) :
    x ∈ dropOverlappingLiveFrames equal history (earlier ++ x :: later) := by
  induction earlier generalizing history with
  | nil =>
    have hnone : ¬ (history.any fun entry => equal entry x) = true := by
      intro hany
      obtain ⟨entry, hentry, hequal⟩ := List.any_eq_true.1 hany
      have hpos : 0 < history.countP fun entry => equal entry x :=
        List.countP_pos_iff.2 ⟨entry, hentry, hequal⟩
      simp only [List.countP_nil] at hcount
      omega
    rw [List.nil_append, dropOverlappingLiveFrames, if_neg hnone]
    exact List.mem_cons_self
  | cons y earlier ih =>
    rw [List.cons_append, dropOverlappingLiveFrames]
    split_ifs with hany
    · refine ih ?_
      rw [countP_eraseP_equal hsymm htrans hany, List.countP_cons] at hcount
      omega
    · refine List.mem_cons_of_mem _ (ih ?_)
      rw [List.countP_cons] at hcount
      split_ifs at hcount with hyx
      · -- no entry equals `y`, so none equals `x`
        have hnone : history.countP (fun entry => equal entry x) = 0 := by
          refine List.countP_eq_zero.2 fun entry hentry hequal => hany ?_
          exact List.any_eq_true.2 ⟨entry, hentry, htrans entry x y hequal (hsymm y x ▸ hyx)⟩
        omega
      · omega

end Overlap

variable {events : Nat → WorkflowEvent δ} {stringify : δ → String}

namespace Subscription

theorem equal_symm (i j : Nat) : equal events stringify i j = equal events stringify j i := by
  simp only [equal, eventsEqual]
  rw [Bool.eq_iff_iff]
  simp only [Bool.and_eq_true, beq_iff_eq]
  exact and_congr eq_comm eq_comm

theorem equal_trans (i j k : Nat) (hij : equal events stringify i j = true)
    (hjk : equal events stringify j k = true) : equal events stringify i k = true := by
  simp only [equal, eventsEqual, Bool.and_eq_true, beq_iff_eq] at hij hjk ⊢
  exact ⟨hij.1.trans hjk.1, hij.2.trans hjk.2⟩

/-- What is kept as long as the subscription is not closed. -/
structure Sound (s : Subscription) : Prop where
  watermark : s.closed = false → ∀ event < s.historyWatermark, event ∈ s.emitted
  heard : s.closed = false → ∀ socket ∈ s.socket, ∀ event ∈ socket.received,
    event ∈ s.emitted ∨ event ∈ s.pendingLive
  idle : s.closed = false → s.catchUp = none → s.pendingLive = []
  noted : ∀ length ∈ s.caughtUp,
    s.closed = false ∧ s.catchUp = none ∧ length ≤ s.historyWatermark

variable {s : Subscription}

theorem Sound.nothingLost (h : s.Sound) : NothingLost s := by
  intro length hlength hidle socket hsocket
  obtain ⟨hopen, -, hle⟩ := h.noted length hlength
  refine ⟨fun event hevent => h.watermark hopen event (hevent.trans_le hle), fun event hevent => ?_⟩
  obtain hemitted | hpending := h.heard hopen socket hsocket event hevent
  · exact hemitted
  · rw [h.idle hopen hidle] at hpending
    cases hpending

theorem sound_subscribe (persisted maxReconnectAttempts : Nat) :
    (subscribe persisted maxReconnectAttempts).Sound where
  watermark _ event hevent := absurd hevent (Nat.not_lt_zero event)
  heard _ socket hsocket event hevent := by
    cases hsocket
    cases hevent
  idle _ _ := rfl
  noted _ hlength := by cases hlength

/-- A subscription that is closed is sound without a noted catch-up. -/
theorem sound_of_closed (hclosed : s.closed = true) (hnoted : s.caughtUp = none) : s.Sound := by
  refine ⟨?_, ?_, ?_, ?_⟩
  · intro hopen
    rw [hclosed] at hopen
    cases hopen
  · intro hopen
    rw [hclosed] at hopen
    cases hopen
  · intro hopen
    rw [hclosed] at hopen
    cases hopen
  · intro length hlength
    rw [hnoted] at hlength
    cases hlength

theorem Sound.notes_none (h : s.Sound) (hclosed : s.closed = true) : s.caughtUp = none := by
  cases hcaughtUp : s.caughtUp with
  | none => rfl
  | some length =>
    obtain ⟨hopen, -⟩ := h.noted length hcaughtUp
    rw [hclosed] at hopen
    cases hopen

theorem Sound.terminate (h : s.Sound) : s.terminate.Sound := by
  rw [Subscription.terminate]
  split_ifs
  · exact h
  · exact sound_of_closed rfl rfl

theorem Sound.scheduleReconnect (h : s.Sound) : s.scheduleReconnect.Sound := by
  rw [Subscription.scheduleReconnect]
  split_ifs
  · exact h
  · exact h.terminate
  · exact ⟨h.watermark, h.heard, h.idle, h.noted⟩

theorem Sound.startCatchUp (h : s.Sound) (hnoted : s.caughtUp = none) : s.startCatchUp.Sound := by
  rw [Subscription.startCatchUp]
  split_ifs
  · exact h
  · refine ⟨h.watermark, h.heard, ?_, ?_⟩
    · intro _ hnone
      cases hnone
    · intro length hlength
      rw [hnoted] at hlength
      cases hlength

/-! Emissions. -/

theorem emit_open {event : Nat} (h : (s.emit events event).closed = false) :
    s.emit events event = { s with emitted := s.emitted ++ [event] } := by
  rw [emit] at h ⊢
  split_ifs at h ⊢ with hclosed hterminal
  · rw [hclosed] at h
    cases h
  · rw [Subscription.terminate, if_neg hclosed] at h
    cases h
  · rfl

theorem closed_emit (event : Nat) (h : s.closed = true) : s.emit events event = s := by
  rw [emit, if_pos h]

theorem emitAll_open {given : List Nat} (h : (s.emitAll events given).closed = false) :
    s.emitAll events given = { s with emitted := s.emitted ++ given } := by
  induction given generalizing s with
  | nil =>
    rw [List.append_nil]
    rfl
  | cons event given ih =>
    have hrest := ih (s := s.emit events event) h
    have hfirst : (s.emit events event).closed = false := by
      rw [emitAll, List.foldl_cons, ← emitAll, hrest] at h
      exact h
    rw [emitAll, List.foldl_cons, ← emitAll, hrest, emit_open hfirst, List.append_assoc,
      List.singleton_append]

theorem closed_emitAll (given : List Nat) (h : s.closed = true) : s.emitAll events given = s := by
  induction given with
  | nil => rfl
  | cons event given ih => rw [emitAll, List.foldl_cons, closed_emit event h, ← emitAll, ih]

/-- An emission that closes the subscription lets go of its socket. -/
theorem emitAll_closed {given : List Nat} (hopen : s.closed = false)
    (h : (s.emitAll events given).closed = true) :
    (s.emitAll events given).socket = none ∧ (s.emitAll events given).caughtUp = none := by
  induction given generalizing s with
  | nil =>
    rw [emitAll, List.foldl_nil, hopen] at h
    cases h
  | cons event given ih =>
    rw [emitAll, List.foldl_cons, ← emitAll] at h ⊢
    cases hfirst : (s.emit events event).closed with
    | false => exact ih hfirst h
    | true =>
      rw [closed_emitAll given hfirst]
      rw [emit, if_neg (by simp [hopen])] at hfirst ⊢
      split_ifs at hfirst ⊢ with hterminal
      · rw [Subscription.terminate, if_neg (by simp [hopen])]
        exact ⟨rfl, rfl⟩
      · rw [hopen] at hfirst
        cases hfirst

/-! The steps. -/

variable {received : List Nat}

theorem Sound.opened (h : s.Sound) (hsocket : s.socket = some ⟨false, received⟩) :
    Sound { s with socket := some ⟨true, received⟩, connectGeneration := s.connectGeneration + 1,
                   caughtUp := none } := by
  refine ⟨h.watermark, fun hopen socket hmem => ?_, h.idle, fun length hlength => ?_⟩
  · cases hmem
    exact h.heard hopen ⟨false, received⟩ hsocket
  · cases hlength

theorem Sound.live (h : s.Sound) (hsocket : s.socket = some ⟨true, received⟩) (event : Nat) :
    (({ s with socket := some ⟨true, received ++ [event]⟩ } : Subscription).deliverLive events
      event).Sound := by
  rw [deliverLive]
  cases hcatchUp : s.catchUp with
  | some catchUp =>
    simp only [Option.isSome_some, if_true]
    refine ⟨h.watermark, fun hopen socket hmem other hother => ?_, ?_, ?_⟩
    · cases hmem
      obtain hold | hnew := List.mem_append.1 hother
      · obtain hemitted | hpending := h.heard hopen ⟨true, received⟩ hsocket other hold
        · exact .inl hemitted
        · exact .inr (List.mem_append_left _ hpending)
      · exact .inr (List.mem_append_right _ hnew)
    · intro _ hnone
      cases hnone
    · intro length hlength
      obtain ⟨-, hnone, -⟩ := h.noted length hlength
      rw [hcatchUp] at hnone
      cases hnone
  | none =>
    simp only [Option.isSome_none, Bool.false_eq_true, if_false]
    rw [emit]
    split_ifs with hclosed hterminal
    · exact sound_of_closed hclosed (h.notes_none hclosed)
    · rw [Subscription.terminate, if_neg hclosed]
      exact sound_of_closed rfl rfl
    · refine ⟨fun hopen other hother => List.mem_append_left _ (h.watermark hopen other hother),
        fun hopen socket hmem other hother => ?_, fun hopen _ => h.idle hopen hcatchUp,
        fun length hlength => ?_⟩
      · cases hmem
        obtain hold | hnew := List.mem_append.1 hother
        · obtain hemitted | hpending := h.heard hopen ⟨true, received⟩ hsocket other hold
          · exact .inl (List.mem_append_left _ hemitted)
          · exact .inr hpending
        · exact .inl (List.mem_append_right _ hnew)
      · obtain ⟨hopen, -, hle⟩ := h.noted length hlength
        exact ⟨hopen, rfl, hle⟩

/-- What a reconciliation emits: the history that was not emitted, and each buffered frame that
the history does not hold. -/
theorem mem_reconciled {length : Nat} (hdistinguished : Distinguished events stringify s length)
    (hwatermark : ∀ event < s.historyWatermark, event ∈ s.emitted) {emitted : List Nat}
    (hemitted : emitted = s.emitted ++ (s.newHistory length ++ dropOverlappingLiveFrames
      (equal events stringify) (s.newHistory length) s.pendingLive)) :
    (∀ event < length, event ∈ emitted) ∧ ∀ event ∈ s.pendingLive, event ∈ emitted := by
  have hhistory : ∀ event < length, event ∈ emitted := by
    intro event hevent
    by_cases hold : event < s.historyWatermark
    · rw [hemitted]
      exact List.mem_append_left _ (hwatermark event hold)
    · rw [hemitted]
      refine List.mem_append_right _ (List.mem_append_left _ ?_)
      rw [newHistory]
      split_ifs
      · exact List.mem_range.2 hevent
      · rw [List.mem_drop_iff_getElem]
        refine ⟨event - s.historyWatermark, ?_, ?_⟩
        · rw [List.length_range]
          omega
        · rw [List.getElem_range]
          omega
  refine ⟨hhistory, fun event hevent => ?_⟩
  by_cases hheld : event < length
  · exact hhistory event hheld
  · obtain ⟨k, hk, hget⟩ := List.getElem_of_mem hevent
    have hcount := hdistinguished k hk event
      (by rw [List.getElem?_eq_getElem hk, hget]; rfl) (not_lt.1 hheld)
    have hsplit : s.pendingLive = s.pendingLive.take k ++ event :: s.pendingLive.drop (k + 1) := by
      rw [← hget, List.cons_getElem_drop_succ, List.take_append_drop]
    rw [hemitted]
    refine List.mem_append_right _ (List.mem_append_right _ ?_)
    rw [hsplit]
    exact mem_dropOverlappingLiveFrames equal_symm equal_trans hcount

/-- The end of a catch-up that was not stale touches the attempts and the note only. -/
theorem finishCatchUp_current (generation : Nat)
    (h : s.closed = true ∨ generation = s.connectGeneration) (succeeded : Bool)
    (history : Option Nat) : ∃ attempts caughtUp,
      (s.noteCaughtUp succeeded history).finishCatchUp generation succeeded =
          { s with catchUp := none, reconnectAttempts := attempts, caughtUp } ∧
        (caughtUp = s.caughtUp ∨ caughtUp = history ∧ s.socket ≠ none) := by
  have hcurrent : (!s.closed && decide (generation ≠ s.connectGeneration)) = false := by
    obtain hclosed | heq := h
    · simp [hclosed]
    · simp [heq]
  rw [noteCaughtUp]
  split_ifs with hopened
  · have hsocket : s.socket ≠ none := by
      rintro hnone
      simp [hnone] at hopened
    simp only [finishCatchUp, hcurrent, Bool.false_eq_true, if_false]
    split_ifs
    · exact ⟨0, history, rfl, .inr ⟨rfl, hsocket⟩⟩
    · exact ⟨s.reconnectAttempts, history, rfl, .inr ⟨rfl, hsocket⟩⟩
  · simp only [finishCatchUp, hcurrent, Bool.false_eq_true, if_false]
    split_ifs
    · exact ⟨0, s.caughtUp, rfl, .inl rfl⟩
    · exact ⟨s.reconnectAttempts, s.caughtUp, rfl, .inl rfl⟩

/-- A catch-up for the current connection. -/
theorem Sound.settle_current (h : s.Sound) (hopen : s.closed = false) (hnoted : s.caughtUp = none)
    (history : Option Nat)
    (hdistinguished : ∀ length ∈ history, Distinguished events stringify s length) :
    (s.settle events stringify s.connectGeneration history).Sound := by
  obtain ⟨told, htold⟩ : ∃ told, told = s.replay events stringify history := ⟨_, rfl⟩
  have hreconciled : s.reconcileHistory events stringify s.connectGeneration history =
      (history.isSome, { told with historyWatermark := history.getD told.historyWatermark }) := by
    simp [reconcileHistory, hopen, htold]
  rw [Subscription.settle, hreconciled]
  rw [replay] at htold
  obtain hclosed | hstill := Bool.eq_false_or_eq_true told.closed
  · obtain ⟨hsocket, hcaughtUp⟩ :=
      emitAll_closed (s := { s with pendingLive := [] }) hopen (htold ▸ hclosed)
    rw [← htold] at hsocket hcaughtUp
    obtain ⟨attempts, caughtUp, heq, hcases⟩ := finishCatchUp_current
      s.connectGeneration
      (s := { told with historyWatermark := history.getD told.historyWatermark })
      (.inl hclosed) history.isSome history
    rw [heq]
    refine sound_of_closed hclosed ?_
    obtain hsame | ⟨-, hsome⟩ := hcases
    · exact hsame.trans hcaughtUp
    · exact (hsome hsocket).elim
  · have hexact := emitAll_open (s := { s with pendingLive := [] }) (htold ▸ hstill)
    rw [← htold] at hexact
    obtain ⟨attempts, caughtUp, heq, hcases⟩ := finishCatchUp_current
      s.connectGeneration
      (s := { told with historyWatermark := history.getD told.historyWatermark })
      (.inr (by rw [hexact])) history.isSome history
    rw [heq]
    have hemitted : told.emitted = s.emitted ++ (s.newHistory (history.getD 0) ++
        dropOverlappingLiveFrames (equal events stringify) (s.newHistory (history.getD 0))
          s.pendingLive) := by
      rw [hexact]
    have hsocket : told.socket = s.socket := by rw [hexact]
    have hbuffer : told.pendingLive = [] := by rw [hexact]
    have hbefore : told.caughtUp = none := by rw [hexact, hnoted]
    have hmark : told.historyWatermark = s.historyWatermark := by rw [hexact]
    have hreplayed : (∀ event < history.getD told.historyWatermark, event ∈ told.emitted) ∧
        ∀ event ∈ s.pendingLive, event ∈ told.emitted := by
      cases history with
      | none =>
        -- nothing is replayed, and every buffered frame is new
        have hnothing : s.newHistory 0 = [] := by
          rw [newHistory]
          split_ifs
          · rfl
          · exact List.drop_nil
        simp only [Option.getD_none, hnothing, dropOverlappingLiveFrames_nil, List.nil_append]
          at hemitted
        refine ⟨fun event hevent => ?_, fun event hevent => ?_⟩
        · rw [hemitted]
          exact List.mem_append_left _ (h.watermark hopen event (hmark ▸ hevent))
        · rw [hemitted]
          exact List.mem_append_right _ hevent
      | some length =>
        exact mem_reconciled (hdistinguished length rfl) (h.watermark hopen) hemitted
    refine ⟨fun _ => hreplayed.1, fun _ socket hmem event hevent => .inl ?_, fun _ _ => hbuffer,
      fun length hlength => ⟨hstill, rfl, ?_⟩⟩
    · obtain hold | hbuffered := h.heard hopen socket (hsocket ▸ hmem) event hevent
      · simp only [hemitted]
        exact List.mem_append_left _ hold
      · exact hreplayed.2 event hbuffered
    · obtain hsame | ⟨hsame, -⟩ := hcases
      · rw [show caughtUp = none from hsame.trans hbefore] at hlength
        cases hlength
      · have hhistory : history = some length := hsame ▸ hlength
        simp only [hhistory, Option.getD_some, le_refl]

theorem Sound.settle (h : s.Sound) {catchUp : CatchUp} (hcatchUp : s.catchUp = some catchUp)
    (history : Option Nat) (hdistinguished : catchUp.generation = s.connectGeneration →
      ∀ length ∈ history, Distinguished events stringify s length) :
    (s.settle events stringify catchUp.generation history).Sound := by
  have hnoted : s.caughtUp = none := by
    cases hcaughtUp : s.caughtUp with
    | none => rfl
    | some length =>
      obtain ⟨-, hnone, -⟩ := h.noted length hcaughtUp
      rw [hcatchUp] at hnone
      cases hnone
  by_cases hclosed : s.closed = true
  · have hsettled : s.settle events stringify catchUp.generation history =
        { s with catchUp := none } := by
      simp [Subscription.settle, reconcileHistory, noteCaughtUp, finishCatchUp, hclosed]
    rw [hsettled]
    exact sound_of_closed hclosed hnoted
  · have hopen : s.closed = false := Bool.eq_false_iff.2 hclosed
    by_cases hcurrent : catchUp.generation = s.connectGeneration
    · rw [hcurrent]
      exact h.settle_current hopen hnoted history (hdistinguished hcurrent)
    · -- the catch-up of a socket that has dropped runs again for the current one
      have hsettled : s.settle events stringify catchUp.generation history =
          { s with catchUp := some ⟨s.connectGeneration, .requested⟩ } := by
        simp [Subscription.settle, reconcileHistory, noteCaughtUp, finishCatchUp, hopen, hcurrent,
          Subscription.startCatchUp]
      rw [hsettled]
      refine ⟨h.watermark, h.heard, ?_, fun length hlength => ?_⟩
      · intro _ hnone
        cases hnone
      · rw [hnoted] at hlength
        cases hlength

theorem Sound.step {s s' : Subscription} (h : s.Sound) {event : Step}
    (hapart : Apart events stringify s event) (hs' : s.step events stringify event = some s') :
    s'.Sound := by
  cases event with
  | persist =>
    obtain rfl := Option.some.inj hs'
    exact ⟨h.watermark, h.heard, h.idle, h.noted⟩
  | connect throws =>
    rw [Subscription.step] at hs'
    have hfired : ({ s with reconnectTimer := false } : Subscription).Sound :=
      ⟨h.watermark, h.heard, h.idle, h.noted⟩
    split_ifs at hs'
    · obtain rfl := Option.some.inj hs'
      exact hfired.scheduleReconnect
    · obtain rfl := Option.some.inj hs'
      refine ⟨h.watermark, fun _ socket hmem event hevent => ?_, h.idle, fun _ hlength => ?_⟩
      · cases hmem
        cases hevent
      · cases hlength
  | socketOpen =>
    rw [Subscription.step] at hs'
    split at hs'
    · rename_i received hsocket
      obtain rfl := Option.some.inj hs'
      exact (h.opened hsocket).startCatchUp rfl
    · cases hs'
  | drop =>
    rw [Subscription.step] at hs'
    split_ifs at hs'
    obtain rfl := Option.some.inj hs'
    refine Sound.scheduleReconnect ⟨h.watermark, fun _ socket hmem => ?_, h.idle, ?_⟩
    · cases hmem
    · intro _ hlength
      cases hlength
  | live event =>
    rw [Subscription.step] at hs'
    split at hs'
    · rename_i received hsocket
      split_ifs at hs'
      obtain rfl := Option.some.inj hs'
      exact h.live hsocket event
    · cases hs'
  | answer =>
    rw [Subscription.step] at hs'
    split at hs'
    · rename_i generation hcatchUp
      obtain rfl := Option.some.inj hs'
      refine ⟨h.watermark, h.heard, ?_, fun length hlength => ?_⟩
      · intro _ hnone
        cases hnone
      · obtain ⟨-, hnone, -⟩ := h.noted length hlength
        rw [hcatchUp] at hnone
        cases hnone
    · cases hs'
  | settle succeeds =>
    cases hcatchUp : s.catchUp with
    | none => simp [Subscription.step, hcatchUp] at hs'
    | some catchUp =>
      obtain ⟨generation, fetch⟩ := catchUp
      cases succeeds with
      | false =>
        simp only [Subscription.step, hcatchUp] at hs'
        obtain rfl := Option.some.inj hs'
        refine h.settle hcatchUp none fun _ other hother => ?_
        cases hother
      | true =>
        cases fetch with
        | requested => simp [Subscription.step, hcatchUp] at hs'
        | answered length =>
          simp only [Subscription.step, hcatchUp] at hs'
          obtain rfl := Option.some.inj hs'
          refine h.settle hcatchUp (some length) fun hcurrent other hother => ?_
          cases hother
          exact hapart _ hcatchUp hcurrent length rfl
  | close =>
    obtain rfl := Option.some.inj hs'
    exact h.terminate

end Subscription

open Subscription

/-- Where no new frame is taken for a replayed entry, whatever was persisted before the fetch of a
catch-up that has succeeded for the current socket, and whatever that socket has received, has
been emitted. -/
theorem nothing_lost (events : Nat → WorkflowEvent δ) (stringify : δ → String)
    (persisted maxReconnectAttempts : Nat) (steps : List Step)
    (h : (machine events stringify).EveryStep (Apart events stringify)
      (subscribe persisted maxReconnectAttempts) steps) :
    (machine events stringify).EveryState NothingLost
      (subscribe persisted maxReconnectAttempts) steps := by
  have hinvariant : (machine events stringify).EveryState Sound
      (subscribe persisted maxReconnectAttempts) steps :=
    Machine.everyState_of_invariant (fun s event s' hs hapart hs' => hs.step hapart hs')
      (sound_subscribe persisted maxReconnectAttempts) h
  exact hinvariant.mono fun s hs => hs.nothingLost

/-! A workflow that signals without end, with one payload or with a new one each time. -/

def sameSignals (_ : Nat) : WorkflowEvent String := ⟨"signal:received", "{}"⟩

def countedSignals (event : Nat) : WorkflowEvent String :=
  ⟨"signal:received", if event = 0 then "0" else "1"⟩

theorem nothing_lost_counted :
    (machine countedSignals id).EveryState NothingLost (subscribe 1 5)
      [.socketOpen, .answer, .persist, .live 1, .settle true] :=
  nothing_lost countedSignals id 1 5 _ (by decide)

/-- The event 0 is persisted before the socket opens and the fetch reads it; the event 1 comes in
live while the answer is under way, and is taken for it. -/
theorem equal_frame_lost :
    ¬ (machine sameSignals id).EveryState NothingLost (subscribe 1 5)
      [.socketOpen, .answer, .persist, .live 1, .settle true] := by
  intro h
  have hlost := h.final 1 rfl rfl ⟨true, [1]⟩ rfl
  exact absurd (hlost.2 1 (List.mem_singleton.2 rfl)) (by decide)

end Weft.Tail
