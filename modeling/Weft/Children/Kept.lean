import Weft.Children.Lineage

/-! Every step that is undisturbed keeps the lineage and the depths. -/

namespace Weft.Children
open Weft.Lib Weft.Js

universe u

variable {ι τ : Type u} {options : Options ι} {w : World ι τ}

/-! ## The commit of a start -/

variable {token : τ} {workflowId other : ι} {record : Option (WorkflowState ι τ)}
  {internals : EngineInternals ι τ} {calls : Nat → Option (Call ι τ)}

section

variable [DecidableEq ι]

theorem runs_update_of_ne {runs : τ → Option (Run ι τ)} (h : other ≠ workflowId) :
    Runs (⟨Function.update w.records workflowId record, internals, calls, runs⟩ : World ι τ) other
      token ↔ Runs w other token := by
  simp only [Runs, Function.update_of_ne h]

end

section

variable [DecidableEq ι]

theorem runs_update_self {runs : τ → Option (Run ι τ)} :
    Runs (⟨Function.update w.records workflowId record, internals, calls, runs⟩ : World ι τ)
        workflowId token ↔
      ∃ state, record = some state ∧ state.status = .running ∧
        state.workflowExecutionToken = token := by
  simp only [Runs, Function.update_self]

end

variable {start : Start ι τ}

/-- An id that is free has no run that goes on. -/
theorem not_runs_of_isFree (h : isFree w start = true) (token : τ) :
    ¬ Runs w start.workflowId token := by
  rintro ⟨state, hrecord, hrunning, -⟩
  rw [isFree, hrecord] at h
  simp [hrunning] at h

variable {state : WorkflowState ι τ}

section

variable [DecidableEq ι] [DecidableEq τ]

/-- What the commit of a start leaves of the memory. -/
theorem store_memory (h : Inv options w) (hfree : isFree w start = true)
    (preparation : StartWorkflowPreparation ι τ) (token : τ) :
    let internals := (storeStart options w start preparation token).internals
    internals.executing = w.internals.executing ∧
      internals.queuedInlineWorkflowStarts = w.internals.queuedInlineWorkflowStarts ∧
      internals.workflowNestingDepths = w.internals.workflowNestingDepths ∧
      internals.pendingNestingDepth = w.internals.pendingNestingDepth ∧
      ∀ other, other ≠ start.workflowId →
        internals.workflowHeaders other = w.internals.workflowHeaders other := by
  simp only [storeStart, setWorkflowStartHeaders, cleanupWaiters]
  split_ifs
  · refine ⟨rfl, rfl, ?_, rfl, fun other hother => ?_⟩
    · funext other
      by_cases hother : other = start.workflowId
      · subst hother
        have hnone : w.internals.workflowNestingDepths start.workflowId = none := by
          cases hn : w.internals.workflowNestingDepths start.workflowId with
          | none => rfl
          | some n =>
            obtain ⟨t, ht, -⟩ := h.held _ _ hn
            exact (not_runs_of_isFree hfree t ht).elim
        exact (Function.update_self _ _ _).trans hnone.symm
      · exact Function.update_of_ne hother _ _
    · rw [Function.update_of_ne hother]
      exact Function.update_of_ne hother _ _
  · exact ⟨rfl, rfl, rfl, rfl, fun other hother => Function.update_of_ne hother _ _⟩

theorem Inv.store (h : Inv options w) {preparation : StartWorkflowPreparation ι τ}
    (hcall : CallOk options w.runs (.prepared start preparation)) (hfresh : w.runs token = none)
    (hfree : isFree w start = true) :
    Inv options (storeStart options w start preparation token) := by
  obtain ⟨hstarted, hinherited⟩ := hcall
  obtain ⟨hexecuting, hqueue, hdepths, hpending, hheaders⟩ := store_memory h hfree preparation token
  let headers := runWorkflowStartInterceptor options start.workflowId
    (preparation.parentHeaders.map HeaderMap.entries)
  let run : Run ι τ :=
    ⟨start.workflowId, start.origin, preparation.executionStateOwnerId, someHeaders headers⟩
  let w' := storeStart options w start preparation token
  have hkeeps : Keeps w.runs w'.runs := keeps_update hfresh run
  have hrun : w'.runs token = some run := by simp [w', storeStart, run, initialState, headers]
  have hold : ∀ {t run'}, t ≠ token → w'.runs t = some run' → w.runs t = some run' := by
    intro t run' ht hrun'
    have hrun' : Function.update w.runs token (some run) t = some run' := hrun'
    rwa [Function.update_of_ne ht] at hrun'
  have hruns : ∀ {other t}, Runs w other t → Runs w' other t := by
    intro other t hold
    refine (runs_update_of_ne fun heq => ?_).2 hold
    subst heq
    exact not_runs_of_isFree hfree t hold
  have hne : ∀ {other state}, w.records other = some state →
    state.workflowExecutionToken ≠ token := by
    rintro other state hrecord rfl
    obtain ⟨run'', _, hrun'', -⟩ := h.records other state hrecord
    rw [hfresh] at hrun''
    cases hrun''
  constructor
  · intro t run' hrun'
    by_cases ht : t = token
    · subst ht
      cases horigin : start.origin with
      | none => exact ⟨0, .outside hrun horigin, Nat.zero_le _⟩
      | some o =>
        obtain ⟨-, n, hn, -, hbounded⟩ := hstarted.child o horigin
        exact ⟨n + 1, .child hrun horigin (hn.keep hkeeps), hbounded⟩
    · obtain ⟨n, hn, hbounded⟩ := h.depths t run' (hold ht hrun')
      exact ⟨n, hn.keep hkeeps, hbounded⟩
  · intro other state hrecord
    obtain ⟨rfl, ⟨⟩⟩ | ⟨-, hrecord⟩ := update_some_cases hrecord
    · exact ⟨run, _, hrun, rfl, rfl, hinherited.keep hkeeps, rfl⟩
    · exact (h.records other state hrecord).keep hkeeps
  · intro other state run' hrecord hwaiting hrun'
    obtain ⟨rfl, ⟨⟩⟩ | ⟨-, hrecord⟩ := update_some_cases hrecord
    · obtain rfl : run = run' := Option.some.inj (hrun.symm.trans hrun')
      cases horigin : start.origin with
      | none => exact horigin
      | some o =>
        have hdelayed := (hstarted.child o horigin).1
        simp [initialState, hdelayed] at hwaiting
    · exact h.delayed other state run' hrecord hwaiting (hold (hne hrecord) hrun')
  · intro other execution hexecution
    have hexecution : w'.internals.executing other = some execution := hexecution
    rw [show w'.internals.executing = _ from hexecuting] at hexecution
    obtain ⟨hrunning, hdepth⟩ := h.executing _ _ hexecution
    refine ⟨hruns hrunning, ?_⟩
    rw [getWorkflowNestingDepth_congr (congrFun hexecuting _) (congrFun hdepths _)]
    exact hdepth.keep hkeeps
  · intro queued hqueued
    rw [hqueue] at hqueued
    exact (h.queued queued hqueued).keep hkeeps
  · intro other n hn
    rw [hdepths] at hn
    obtain ⟨t, ht, hdepth⟩ := h.held other n hn
    exact ⟨t, hruns ht, hdepth.keep hkeeps⟩
  · intro other t run' ht hmemory hrun'
    by_cases hother : other = start.workflowId
    · subst hother
      obtain ⟨state, hstate, -, rfl⟩ := runs_update_self.1 ht
      cases hstate
      obtain rfl : run = run' := Option.some.inj (hrun.symm.trans hrun')
      simp only [storeStart, setWorkflowStartHeaders, Function.update_self, Option.map_map]
      exact Option.map_id'
    · have hrunning : Runs w other t := (runs_update_of_ne hother).1 ht
      obtain ⟨state, hrecord, -, rfl⟩ := id hrunning
      have hmemory : InMemory w other state.workflowExecutionToken := by
        unfold InMemory at hmemory ⊢
        rwa [hexecuting, hqueue] at hmemory
      rw [hheaders other hother]
      exact h.headers other _ run' hrunning hmemory (hold (hne hrecord) hrun')
  · exact fun call c hc => (h.calls call c hc).keep hkeeps
  · exact fun call context hstarting => hpending.trans (h.pending call context hstarting)
  · exact h.single

theorem Inv.commit (h : Inv options w) {call : Nat} {preparation : StartWorkflowPreparation ι τ}
    (hcall : w.calls call = some (.prepared start preparation)) (hfresh : w.runs token = none)
    (hfree : isFree w start = true) :
    Inv options (commitStart options w call start preparation token) := by
  have hprepared := h.calls call _ hcall
  have hstored := h.store hprepared hfresh hfree
  let w' := storeStart options w start preparation token
  unfold commitStart
  simp only
  split_ifs with hdelayed
  · exact hstored.putNone (by exact ⟨rfl, rfl, rfl, fun _ _ _ => rfl⟩) (fun c hc => nomatch hc) rfl
      (.inr rfl)
  · have hrun : w'.runs token = some ⟨start.workflowId, start.origin,
        preparation.executionStateOwnerId, someHeaders (runWorkflowStartInterceptor options
          start.workflowId (preparation.parentHeaders.map HeaderMap.entries))⟩ := by
      simp [w', storeStart, initialState]
    have hkeeps : Keeps w.runs w'.runs := keeps_update hfresh _
    have hdepth : DepthOf w'.runs token start.nestingDepth := by
      obtain ⟨⟨houtside, hchild⟩, -⟩ := hprepared
      cases horigin : start.origin with
      | none =>
        rw [Start.nestingDepth, houtside.2 horigin]
        exact .outside hrun horigin
      | some o =>
        obtain ⟨-, n, hn, hnesting, -⟩ := hchild o horigin
        rw [hnesting]
        exact .child hrun horigin (hn.keep hkeeps)
    refine hstored.putKept ⟨rfl, rfl, rfl, fun _ _ _ => rfl⟩ (fun c hc => ?_)
      (fun context hcontext => ?_) (.inr rfl)
    · cases hc
      refine ⟨⟨hdepth, _, hrun, rfl⟩, fun start' token' heq run' _ hrun' => ?_⟩
      cases heq
      cases hrun.symm.trans hrun'
      simp only [storeStart, setWorkflowStartHeaders, Function.update_self, Option.map_map]
      exact Option.map_id'
    · show (w.calls call).bind Call.starts = some context
      rw [hcall]
      exact hcontext

end

/-! ## A run is taken up -/

section

variable [DecidableEq ι]

/-- A depth is recorded for a run that goes on. -/
theorem depth_startWorkflowExecution (h : Inv options w) {n : Nat}
    (hruns : Runs w workflowId token) (hdepth : DepthOf w.runs token n) :
    getWorkflowNestingDepth options
      (startWorkflowExecution w.internals workflowId token n) workflowId = n := by
  have hheld : ∀ m, w.internals.workflowNestingDepths workflowId = some m → m = n := by
    intro m hm
    obtain ⟨t, ht, hdepth'⟩ := h.held _ _ hm
    obtain rfl := ht.unique hruns
    exact hdepth'.unique hdepth
  simp only [getWorkflowNestingDepth, startWorkflowExecution, Function.update_self]
  split_ifs with hinline hzero hzero
  · rfl
  · rfl
  · rw [Function.update_self]
    rfl
  · cases hm : w.internals.workflowNestingDepths workflowId with
    | none => exact (not_not.1 hzero).symm
    | some m => exact hheld m hm

end

section

variable [DecidableEq ι] [DecidableEq τ]

theorem Inv.execute (h : Inv options w) {n : Nat} (hruns : Runs w workflowId token)
    (hdepth : DepthOf w.runs token n)
    (hheaders : ∀ run, w.runs token = some run →
      (w.internals.workflowHeaders workflowId).map HeaderMap.entries = run.headers) :
    Inv options { w with internals := startWorkflowExecution w.internals workflowId token n } :=
  { h with
    executing := by
      intro other execution hexecution
      by_cases hother : other = workflowId
      · subst hother
        have hexecution : Function.update w.internals.executing other (some ⟨token, n⟩) other =
          some execution := hexecution
        rw [Function.update_self] at hexecution
        cases hexecution
        refine ⟨hruns, ?_⟩
        show DepthOf w.runs token _
        rw [depth_startWorkflowExecution h hruns hdepth]
        exact hdepth
      · have hexecution : Function.update w.internals.executing workflowId _ other =
          some execution :=
          hexecution
        rw [Function.update_of_ne hother] at hexecution
        obtain ⟨hold, hdepth'⟩ := h.executing _ _ hexecution
        have hdepths : (startWorkflowExecution w.internals workflowId token n).workflowNestingDepths
            other = w.internals.workflowNestingDepths other := by
          simp only [startWorkflowExecution]
          split_ifs
          · exact Function.update_of_ne hother _ _
          · rfl
        refine ⟨hold, ?_⟩
        rw [getWorkflowNestingDepth_congr (Function.update_of_ne hother _ _) hdepths]
        exact hdepth'
    held := by
      intro other m hm
      simp only [startWorkflowExecution] at hm
      split_ifs at hm with hzero
      · obtain ⟨rfl, ⟨⟩⟩ | ⟨-, hm⟩ := update_some_cases hm
        · exact ⟨token, hruns, hdepth⟩
        · exact h.held other m hm
      · exact h.held other m hm
    headers := by
      intro other t run ht hmemory hrun
      by_cases hown : other = workflowId ∧ t = token
      · obtain ⟨rfl, rfl⟩ := hown
        exact hheaders run hrun
      · refine h.headers other t run ht ?_ hrun
        rcases hmemory with ⟨execution, hexecution, htoken⟩ | hmemory
        · by_cases hother : other = workflowId
          · subst hother
            have hexecution : Function.update w.internals.executing other (some ⟨token, n⟩) other =
              some execution := hexecution
            rw [Function.update_self] at hexecution
            cases hexecution
            exact (hown ⟨rfl, htoken.symm⟩).elim
          · exact .inl ⟨execution, (Function.update_of_ne hother _ _).symm.trans hexecution, htoken⟩
        · exact .inr hmemory }

end

theorem Inv.enqueue (h : Inv options w) {start : QueuedInlineWorkflowExecutionStart ι τ}
    (hdepth : DepthOf w.runs start.workflowExecutionToken start.nestingDepth)
    (hheaders : ∀ run, Runs w start.workflowId start.workflowExecutionToken →
      w.runs start.workflowExecutionToken = some run →
        (w.internals.workflowHeaders start.workflowId).map HeaderMap.entries = run.headers) :
    Inv options { w with internals := { w.internals with
      queuedInlineWorkflowStarts := w.internals.queuedInlineWorkflowStarts ++ [start] } } :=
  { h with
    queued := by
      intro other hother
      rcases List.mem_append.1 hother with hother | hother
      · exact h.queued other hother
      · obtain rfl := List.mem_singleton.1 hother
        exact hdepth
    headers := by
      intro other t run ht hmemory hrun
      rcases hmemory with hmemory | ⟨queued, hqueued, hid, htoken⟩ | hmemory
      · exact h.headers other t run ht (.inl hmemory) hrun
      · rcases List.mem_append.1 hqueued with hqueued | hqueued
        · exact h.headers other t run ht (.inr (.inl ⟨queued, hqueued, hid, htoken⟩)) hrun
        · obtain rfl := List.mem_singleton.1 hqueued
          subst hid htoken
          exact hheaders run ht hrun
      · exact h.headers other t run ht (.inr (.inr hmemory)) hrun }

theorem Inv.dequeue (h : Inv options w)
    {queue : List (QueuedInlineWorkflowExecutionStart ι τ)}
    (hqueue : queue ⊆ w.internals.queuedInlineWorkflowStarts) :
    Inv options { w with internals := { w.internals with queuedInlineWorkflowStarts := queue } } :=
  { h with
    queued := fun start hstart => h.queued start (hqueue hstart)
    headers := by
      intro other t run ht hmemory hrun
      refine h.headers other t run ht ?_ hrun
      rcases hmemory with hmemory | ⟨queued, hqueued, hown⟩ | hmemory
      · exact .inl hmemory
      · exact .inr (.inl ⟨queued, hqueue hqueued, hown⟩)
      · exact .inr (.inr hmemory) }

section

variable [DecidableEq ι] [DecidableEq τ]

theorem Inv.begin (h : Inv options w) {call : Nat}
    (hcall : w.calls call = some (.committed start token))
    (hpending : start.context = none → w.internals.pendingNestingDepth = none)
    (hown : options.inline = false → Runs w start.workflowId token) :
    Inv options (beginStart options w call start token) := by
  obtain ⟨hdepth, run, hrun, hid⟩ := h.calls call _ hcall
  have hstarting : w.starting call = start.context := by
    rw [World.starting, hcall]
    rfl
  have hnesting : w.internals.pendingNestingDepth.getD 0 = start.nestingDepth := by
    unfold Start.nestingDepth
    cases hcontext : start.context with
    | none =>
      rw [hpending hcontext]
      rfl
    | some context =>
      rw [h.pending call context (hstarting.trans hcontext)]
      rfl
  have hothers : ∀ other, other ≠ call → w.starting other = none := by
    intro other hother
    cases hcontext' : w.starting other with
    | none => rfl
    | some context' =>
      cases hcontext : start.context with
      | none =>
        have := h.pending other context' hcontext'
        rw [hpending hcontext] at this
        cases this
      | some context =>
        refine (hother (h.single other call ?_ ?_)).elim
        · rw [hcontext']
          rfl
        · rw [hstarting, hcontext]
          rfl
  have hheaders : ∀ run, Runs w start.workflowId token → w.runs token = some run →
      (w.internals.workflowHeaders start.workflowId).map HeaderMap.entries = run.headers :=
    fun run hruns hrun =>
      h.headers _ _ run hruns (.inr (.inr ⟨call, start, hcall, rfl⟩)) hrun
  let internals := release { w.internals with pendingNestingDepth := none } start.workflowId
  let w' : World ι τ := setCall { w with internals } call (leave start)
  have hnone : NoneStarting w' := by
    intro other
    rw [starting_setCall]
    split_ifs with hother
    · exact leave_starts start
    · exact hothers other hother
  have hleft : Inv options w' := by
    refine h.put (by exact ⟨rfl, rfl, rfl, fun _ _ _ => rfl⟩) (fun c hc => ?_)
      (fun other context hs => ?_) (fun other _ hs => ?_)
    · have hleave : CallOk options w.runs c ∧ ∀ start token, c ≠ .committed start token :=
        leave_ok _ _ hc
      exact ⟨hleave.1, fun start token heq => (hleave.2 start token heq).elim⟩
    · cases (hnone other).symm.trans hs
    · rw [show (setCall { w with internals } call (leave start)).starting other = none from
        hnone other] at hs
      cases hs
  unfold beginStart beginWorkflowExecution
  simp only
  rw [hnesting]
  split_ifs with hinline
  · exact hleft.enqueue hdepth hheaders
  · have hruns := hown (Bool.not_eq_true _ ▸ hinline)
    exact hleft.execute hruns hdepth fun run hrun => hheaders run hruns hrun

theorem Inv.launch (h : Inv options w) {place : Nat}
    {start : QueuedInlineWorkflowExecutionStart ι τ}
    (hstart : w.internals.queuedInlineWorkflowStarts[place]? = some start)
    (hown : ∀ token, Runs w start.workflowId token → token = start.workflowExecutionToken) :
    Inv options (launch w place start) := by
  have hdropped : Inv options { w with internals := { w.internals with
      queuedInlineWorkflowStarts := w.internals.queuedInlineWorkflowStarts.eraseIdx place } } :=
    h.dequeue (List.eraseIdx_subset)
  have hmem := List.mem_of_getElem? hstart
  unfold Children.launch
  cases hrecord : w.records start.workflowId with
  | none => exact hdropped
  | some state =>
    simp only
    split_ifs with hrunning
    · have hruns : Runs w start.workflowId state.workflowExecutionToken :=
        ⟨state, hrecord, hrunning, rfl⟩
      have htoken := hown _ hruns
      refine hdropped.execute hruns ?_ fun run hrun => ?_
      · rw [htoken]
        exact h.queued start hmem
      · exact h.headers _ _ run hruns (.inr (.inl ⟨start, hmem, rfl, htoken.symm⟩)) hrun
    · exact hdropped

end

/-! ## Loads, ends and crashes -/

section

variable [DecidableEq ι] [DecidableEq τ]

/-- The run of a record that has not ended is running, with the headers that are stored. -/
theorem Inv.takeUp (h : Inv options w) (hrecord : w.records workflowId = some state) :
    Inv options (loadWorkflowStartHeaders (setStatus w workflowId state .running) workflowId
      state) := by
  let w' := loadWorkflowStartHeaders (setStatus w workflowId state .running) workflowId state
  have hkeeps : Keeps w.runs w'.runs := keeps_headers w.runs _ _
  have hruns : ∀ {other t}, Runs w other t → Runs w' other t := by
    intro other t hold
    by_cases hother : other = workflowId
    · subst hother
      obtain ⟨state', hrecord', -, rfl⟩ := hold
      rw [hrecord] at hrecord'
      cases hrecord'
      exact runs_update_self.2 ⟨_, rfl, rfl, rfl⟩
    · exact (runs_update_of_ne hother).2 hold
  have hold : ∀ {t run'}, t ≠ state.workflowExecutionToken → w'.runs t = some run' →
      w.runs t = some run' := by
    intro t run' ht hrun'
    have hrun' : Function.update w.runs state.workflowExecutionToken _ t = some run' := hrun'
    rwa [Function.update_of_ne ht] at hrun'
  constructor
  · intro t run' hrun'
    by_cases ht : t = state.workflowExecutionToken
    · subst ht
      obtain ⟨run, _, hrun, -⟩ := h.records _ _ hrecord
      obtain ⟨n, hn, hbounded⟩ := h.depths _ _ hrun
      exact ⟨n, hn.keep hkeeps, hbounded⟩
    · obtain ⟨n, hn, hbounded⟩ := h.depths _ _ (hold ht hrun')
      exact ⟨n, hn.keep hkeeps, hbounded⟩
  · intro other state' hrecord'
    obtain ⟨rfl, ⟨⟩⟩ | ⟨-, hrecord'⟩ := update_some_cases hrecord'
    · exact (h.records _ _ hrecord).keep hkeeps
    · exact (h.records other state' hrecord').keep hkeeps
  · intro other state' run' hrecord' hwaiting hrun'
    obtain ⟨rfl, ⟨⟩⟩ | ⟨-, hrecord'⟩ := update_some_cases hrecord'
    · cases hwaiting
    · obtain ⟨run, _, hrun, -⟩ := h.records _ _ hrecord'
      obtain ⟨run'', hrun'', -, horigin, -⟩ := hkeeps _ _ hrun
      cases hrun''.symm.trans hrun'
      exact horigin.trans (h.delayed other state' run hrecord' hwaiting hrun)
  · intro other execution hexecution
    obtain ⟨hrunning, hdepth⟩ := h.executing other execution hexecution
    exact ⟨hruns hrunning, hdepth.keep hkeeps⟩
  · exact fun queued hqueued => (h.queued queued hqueued).keep hkeeps
  · intro other n hn
    obtain ⟨t, ht, hdepth⟩ := h.held other n hn
    exact ⟨t, hruns ht, hdepth.keep hkeeps⟩
  · intro other t run' ht hmemory hrun'
    by_cases hother : other = workflowId
    · subst hother
      obtain ⟨state', hstate', -, rfl⟩ := runs_update_self.1 ht
      cases hstate'
      obtain ⟨run, _, hrun, -⟩ := h.records _ _ hrecord
      have hheaders : run'.headers = someHeaders state.workflowStartHeaders := by
        have hrun' : Function.update w.runs state.workflowExecutionToken
          ((w.runs state.workflowExecutionToken).map fun run =>
            { run with headers := someHeaders state.workflowStartHeaders })
          state.workflowExecutionToken = some run' := hrun'
        rw [Function.update_self, hrun] at hrun'
        cases hrun'
        rfl
      rw [hheaders]
      simp only [loadWorkflowStartHeaders, setWorkflowStartHeaders, Function.update_self,
        Option.map_map]
      exact Option.map_id'
    · have hrunning : Runs w other t := (runs_update_of_ne hother).1 ht
      obtain ⟨state', hrecord', -, rfl⟩ := id hrunning
      have hne : state'.workflowExecutionToken ≠ state.workflowExecutionToken := by
        intro heq
        obtain ⟨run, _, hrun, hid, -⟩ := h.records _ _ hrecord
        obtain ⟨run'', _, hrun'', hid', -⟩ := h.records _ _ hrecord'
        rw [heq, hrun] at hrun''
        cases hrun''
        exact hother (hid'.symm.trans hid)
      show (Function.update w.internals.workflowHeaders workflowId _ other).map _ = _
      rw [Function.update_of_ne hother]
      exact h.headers other _ run' hrunning hmemory (hold hne hrun')
  · exact fun call c hc => (h.calls call c hc).keep hkeeps
  · exact h.pending
  · exact h.single

theorem Inv.due (h : Inv options w) {call : Nat} (hrecord : w.records workflowId = some state)
    (hwaiting : state.status = .pending) : Inv options (due w call workflowId state) := by
  have htaken := h.takeUp hrecord
  obtain ⟨run, _, hrun, hid, -⟩ := h.records _ _ hrecord
  have horigin := h.delayed _ _ run hrecord hwaiting hrun
  let w' := loadWorkflowStartHeaders (setStatus w workflowId state .running) workflowId state
  have hrun' : w'.runs state.workflowExecutionToken =
      some { run with headers := someHeaders state.workflowStartHeaders } := by
    show Function.update w.runs state.workflowExecutionToken _ _ = _
    rw [Function.update_self]
    simp [setStatus, hrun]
  unfold Children.due
  refine htaken.putKept (by exact ⟨rfl, rfl, rfl, fun _ _ _ => rfl⟩) (fun c hc => ?_)
    (fun context hcontext => ?_) (.inr rfl)
  · cases hc
    refine ⟨⟨.outside hrun' horigin, _, hrun', hid⟩, fun start token heq run'' _ hrun'' => ?_⟩
    cases heq
    cases hrun'.symm.trans hrun''
    simp only [loadWorkflowStartHeaders, setWorkflowStartHeaders, Function.update_self,
      Option.map_map]
    exact Option.map_id'
  · cases hcontext

/-- A run without a parent, or whose depth is held, is resumed with its depth. -/
theorem Inv.resume (h : Inv options w) (hrecord : w.records workflowId = some state)
    (hrunning : state.status = .running)
    (hdepth : state.parentWorkflowId = none ∨ options.inline = false ∧
      w.internals.workflowNestingDepths workflowId ≠ none) :
    Inv options (relaunch options w workflowId state) := by
  have htaken := h.takeUp hrecord
  have hsame : setStatus w workflowId state .running = w := by
    have hstate : { state with status := .running } = state := by rw [← hrunning]
    unfold setStatus
    rw [hstate, ← hrecord, Function.update_eq_self]
  rw [hsame] at htaken
  let w' := loadWorkflowStartHeaders w workflowId state
  have hkeeps : Keeps w.runs w'.runs := keeps_headers w.runs _ _
  have hruns : Runs w' workflowId state.workflowExecutionToken := ⟨state, hrecord, hrunning, rfl⟩
  obtain ⟨run, headers, hrun, hid, -, hinherited, -⟩ := h.records _ _ hrecord
  have hheld : ∀ n, w.internals.workflowNestingDepths workflowId = some n →
      DepthOf w'.runs state.workflowExecutionToken n := by
    intro n hn
    obtain ⟨t, ht, hdepthOf⟩ := h.held _ _ hn
    obtain rfl := ht.unique ⟨state, hrecord, hrunning, rfl⟩
    exact hdepthOf.keep hkeeps
  have houtside : state.parentWorkflowId = none →
    DepthOf w'.runs state.workflowExecutionToken 0 := by
    intro hparent
    refine DepthOf.keep hkeeps (.outside hrun ?_)
    cases horigin : run.origin with
    | none => rfl
    | some o =>
      obtain ⟨parent, -, -, hparentId, -⟩ := hinherited.child o horigin
      rw [hparent] at hparentId
      cases hparentId
  have hown : DepthOf w'.runs state.workflowExecutionToken
      (getWorkflowNestingDepth options (relaunch options w workflowId state).internals
        workflowId) := by
    simp only [relaunch, getWorkflowNestingDepth, Function.update_self]
    split_ifs with hinline
    · refine houtside (hdepth.resolve_right fun h => ?_)
      rw [hinline] at h
      cases h.1
    · show DepthOf w'.runs _ ((w.internals.workflowNestingDepths workflowId).getD 0)
      cases hn : w.internals.workflowNestingDepths workflowId with
      | some n => exact hheld n hn
      | none => exact houtside (hdepth.resolve_right fun h => h.2 hn)
  exact {
    depths := htaken.depths
    records := htaken.records
    delayed := htaken.delayed
    executing := by
      intro other execution hexecution
      obtain ⟨rfl, ⟨⟩⟩ | ⟨hother, hexecution⟩ := update_some_cases hexecution
      · exact ⟨hruns, hown⟩
      · obtain ⟨hold, hdepth'⟩ := htaken.executing _ _ hexecution
        refine ⟨hold, ?_⟩
        have hexecuting : (relaunch options w workflowId state).internals.executing other =
          w'.internals.executing other := Function.update_of_ne hother _ _
        rw [getWorkflowNestingDepth_congr hexecuting rfl]
        exact hdepth'
    queued := htaken.queued
    held := htaken.held
    headers := by
      intro other t run' ht hmemory hrun'
      by_cases hother : other = workflowId
      · subst hother
        obtain rfl := Runs.unique ht hruns
        have hrun' : Function.update w.runs state.workflowExecutionToken
          ((w.runs state.workflowExecutionToken).map fun run =>
            { run with headers := someHeaders state.workflowStartHeaders })
          state.workflowExecutionToken = some run' := hrun'
        rw [Function.update_self, hrun] at hrun'
        cases hrun'
        simp only [relaunch, loadWorkflowStartHeaders, setWorkflowStartHeaders,
          Function.update_self, Option.map_map]
        exact Option.map_id'
      · refine htaken.headers other t run' ht ?_ hrun'
        rcases hmemory with ⟨execution, hexecution, htoken⟩ | hmemory
        · exact .inl ⟨execution, (Function.update_of_ne hother _ _).symm.trans hexecution, htoken⟩
        · exact .inr hmemory
    calls := htaken.calls
    pending := htaken.pending
    single := htaken.single }

end

section

variable [DecidableEq ι]

theorem Inv.finish (h : Inv options w) (hrecord : w.records workflowId = some state) :
    Inv options (finish w workflowId state) := by
  let w' := Children.finish w workflowId state
  have hgone : ∀ {t}, ¬ Runs w' workflowId t := by
    intro t ht
    obtain ⟨state', hstate', hrunning, -⟩ := runs_update_self.1 ht
    cases hstate'
    cases hrunning
  have hkept : ∀ {other t}, other ≠ workflowId → (Runs w' other t ↔ Runs w other t) :=
    fun hother => runs_update_of_ne hother
  constructor
  · exact h.depths
  · intro other state' hrecord'
    have hlineage := h.records _ _ hrecord
    obtain ⟨rfl, ⟨⟩⟩ | ⟨-, hrecord'⟩ := update_some_cases hrecord'
    · exact hlineage
    · exact h.records other state' hrecord'
  · intro other state' run' hrecord' hwaiting hrun'
    obtain ⟨rfl, ⟨⟩⟩ | ⟨-, hrecord'⟩ := update_some_cases hrecord'
    · cases hwaiting
    · exact h.delayed other state' run' hrecord' hwaiting hrun'
  · intro other execution hexecution
    obtain ⟨-, ⟨⟩⟩ | ⟨hother, hexecution⟩ := update_some_cases hexecution
    obtain ⟨hold, hdepth⟩ := h.executing _ _ hexecution
    refine ⟨(hkept hother).2 hold, ?_⟩
    have hexecuting : w'.internals.executing other = w.internals.executing other :=
      Function.update_of_ne hother _ _
    have hdepths : w'.internals.workflowNestingDepths other =
        w.internals.workflowNestingDepths other := Function.update_of_ne hother _ _
    rw [getWorkflowNestingDepth_congr hexecuting hdepths]
    exact hdepth
  · exact h.queued
  · intro other n hn
    obtain ⟨-, ⟨⟩⟩ | ⟨hother, hn⟩ := update_some_cases hn
    obtain ⟨t, ht, hdepth⟩ := h.held other n hn
    exact ⟨t, (hkept hother).2 ht, hdepth⟩
  · intro other t run' ht hmemory hrun'
    by_cases hother : other = workflowId
    · subst hother
      exact (hgone ht).elim
    · show (Function.update w.internals.workflowHeaders workflowId none other).map _ = _
      rw [Function.update_of_ne hother]
      refine h.headers other t run' ((hkept hother).1 ht) ?_ hrun'
      rcases hmemory with ⟨execution, hexecution, htoken⟩ | hmemory
      · exact .inl ⟨execution, (Function.update_of_ne hother _ _).symm.trans hexecution, htoken⟩
      · exact .inr hmemory
  · exact h.calls
  · exact h.pending
  · exact h.single

theorem Inv.purge (h : Inv options w) (hrecord : w.records workflowId = some state)
    (hended : state.status = .ended) :
    Inv options { w with records := Function.update w.records workflowId none } := by
  let w' : World ι τ := { w with records := Function.update w.records workflowId none }
  have hold : ∀ {other state'}, w'.records other = some state' → w.records other = some state' := by
    intro other state' hrecord'
    have hrecord' : Function.update w.records workflowId none other = some state' := hrecord'
    by_cases hother : other = workflowId
    · subst hother
      rw [Function.update_self] at hrecord'
      cases hrecord'
    · rwa [Function.update_of_ne hother] at hrecord'
  have hruns : ∀ {other t}, Runs w' other t ↔ Runs w other t := by
    intro other t
    by_cases hother : other = workflowId
    · subst hother
      constructor
      · intro ht
        obtain ⟨state', hstate', -⟩ := runs_update_self.1 ht
        cases hstate'
      · rintro ⟨state', hrecord', hrunning, -⟩
        rw [hrecord] at hrecord'
        cases hrecord'
        rw [hended] at hrunning
        cases hrunning
    · exact runs_update_of_ne hother
  exact {
    depths := h.depths
    records := fun other state' hrecord' => h.records other state' (hold hrecord')
    delayed := fun other state' run' hrecord' => h.delayed other state' run' (hold hrecord')
    executing := fun other execution hexecution =>
      ⟨hruns.2 (h.executing other execution hexecution).1,
        (h.executing other execution hexecution).2⟩
    queued := h.queued
    held := by
      intro other n hn
      obtain ⟨t, ht, hdepth⟩ := h.held other n hn
      exact ⟨t, hruns.2 ht, hdepth⟩
    headers := fun other t run' ht => h.headers other t run' (hruns.1 ht)
    calls := h.calls
    pending := h.pending
    single := h.single }

end

theorem Inv.crash (h : Inv options w) :
    Inv options { w with internals := {}, calls := fun _ => none } := { h with
  executing := fun _ _ hexecution => nomatch hexecution
  queued := fun _ hqueued => nomatch hqueued
  held := fun _ _ hn => nomatch hn
  headers := by
    rintro other t run' - (⟨_, hexecution, -⟩ | ⟨_, hqueued, -⟩ | ⟨_, _, hcall, -⟩) -
    · cases hexecution
    · cases hqueued
    · cases hcall
  calls := fun _ _ hcall => nomatch hcall
  pending := fun _ _ hstarting => nomatch hstarting
  single := fun _ _ hs => nomatch hs }

/-! ## All steps -/

section

variable [DecidableEq ι] [DecidableEq τ]

theorem Inv.step {event : Event ι τ} {w' : World ι τ} (h : Inv options w)
    (hok : Undisturbed options w event) (hstep : step options w event = some w') :
    Inv options w' := by
  cases event with
  | start call workflowId startNew delayed ok =>
    simp only [Children.step] at hstep
    split at hstep
    · cases hstep
      exact h.start hok
    · cases hstep
  | request call request =>
    simp only [Children.step] at hstep
    split at hstep
    · rename_i execution _ hexecution
      split_ifs at hstep with hrun hdepth
      · cases hstep
        exact h
      · cases hstep
        exact h.request hexecution hrun (not_lt.1 hdepth)
    · cases hstep
  | load call =>
    simp only [Children.step] at hstep
    split at hstep
    · rename_i request currentDepth hcall
      cases hstep
      exact h.load hcall (hok request currentDepth hcall)
    · cases hstep
  | dispatch call refused ok =>
    simp only [Children.step] at hstep
    split at hstep
    · rename_i request currentDepth parentState hcall
      cases hstep
      exact h.dispatch hcall hok.1 (hok.2 request currentDepth parentState hcall)
    · cases hstep
  | commit call token =>
    simp only [Children.step] at hstep
    split at hstep
    · rename_i start preparation hcall hfresh
      split_ifs at hstep with hfree
      cases hstep
      exact h.commit hcall hfresh hfree
    · cases hstep
  | fail call =>
    simp only [Children.step] at hstep
    split at hstep
    · rename_i start preparation hcall
      cases hstep
      exact h.fail (hok start preparation hcall)
    · cases hstep
  | begin call =>
    simp only [Children.step] at hstep
    split at hstep
    · rename_i start token hcall
      cases hstep
      exact h.begin hcall (hok start token hcall).1 (hok start token hcall).2
    · cases hstep
  | leave call =>
    simp only [Children.step] at hstep
    split at hstep
    · rename_i context hcall
      cases hstep
      exact h.leaveStep (hok context hcall)
    · cases hstep
  | launch place =>
    obtain ⟨start, hstart, rfl⟩ := Option.map_eq_some_iff.1 hstep
    exact h.launch hstart (hok start hstart)
  | drop place =>
    cases hstep
    exact h.dequeue List.eraseIdx_subset
  | due call workflowId =>
    simp only [Children.step] at hstep
    split at hstep
    · rename_i state _ hrecord
      split_ifs at hstep with hwaiting
      cases hstep
      exact h.due hrecord hwaiting
    · cases hstep
  | finish workflowId =>
    simp only [Children.step] at hstep
    split at hstep
    · rename_i state hrecord
      split_ifs at hstep
      cases hstep
      exact h.finish hrecord
    · cases hstep
  | purge workflowId =>
    simp only [Children.step] at hstep
    split at hstep
    · rename_i state hrecord
      split_ifs at hstep with hended
      cases hstep
      exact h.purge hrecord hended
    · cases hstep
  | resume workflowId =>
    simp only [Children.step] at hstep
    split at hstep
    · rename_i state hrecord
      split_ifs at hstep with hrunning
      cases hstep
      exact h.resume hrecord hrunning (hok state hrecord)
    · cases hstep
  | crash =>
    cases hstep
    exact h.crash

/-- In a run whose steps are undisturbed every workflow keeps its lineage and its depth. -/
theorem everyState_correct (options : Options ι) (events : List (Event ι τ))
    (hok : (machine options).EveryStep (Undisturbed options) ({} : World ι τ) events) :
    (machine options).EveryState (Correct options) ({} : World ι τ) events := by
  have hinv : (machine options).EveryState (Inv options) ({} : World ι τ) events :=
    Machine.everyState_of_invariant (fun _ _ _ hI hok' hstep => Inv.step hI hok' hstep) initial_inv
      hok
  exact hinv.mono fun _ hI => Inv.correct hI

end

/-! ## Depths that are kept, taken and lost -/

section

variable [DecidableEq ι] [DecidableEq τ]

def plainOptions : Options Nat := ⟨true, 10, none⟩

/-- A run from outside starts a child. -/
def childStarted : List (Event Nat Nat) :=
  [.start 0 1 false false true, .commit 0 1, .begin 0, .launch 0, .request 0 ⟨1, 1, 2, false⟩,
    .load 0, .dispatch 0 false true, .commit 0 2, .begin 0, .leave 0, .launch 0]

theorem undisturbed_child :
    (machine plainOptions).EveryStep (Undisturbed plainOptions)
    ({} : World Nat Nat) childStarted := by
  refine ⟨⟨rfl, rfl, rfl, rfl⟩, trivial, fun _ _ hcall => ?_, fun _ hstart _ hruns => ?_, trivial,
    fun _ _ hcall => ?_, ⟨fun call => ?_, fun _ _ _ hcall _ => ?_⟩, trivial, fun _ _ hcall => ?_,
    fun _ hcall hpending => ?_, fun _ hstart _ hruns => ?_, trivial⟩
  · cases hcall
    exact ⟨fun _ => rfl, fun h => nomatch h⟩
  · cases hstart
    obtain ⟨_, hrecord, -, rfl⟩ := hruns
    cases hrecord
    rfl
  · cases hcall
    exact ⟨_, rfl, rfl⟩
  · cases call <;> rfl
  · cases hcall
    exact .inl rfl
  · cases hcall
    exact ⟨fun h => (nomatch h), fun h => nomatch h⟩
  · cases hcall
    cases hpending
  · cases hstart
    obtain ⟨_, hrecord, -, rfl⟩ := hruns
    cases hrecord
    rfl

theorem childStarted_correct :
    (machine plainOptions).EveryState (Correct plainOptions) ({} : World Nat Nat) childStarted :=
  everyState_correct plainOptions childStarted undisturbed_child

/-- Another start from outside begins before the child does. -/
def overtaken : List (Event Nat Nat) :=
  [.start 0 1 false false true, .commit 0 1, .begin 0, .launch 0, .request 0 ⟨1, 1, 2, false⟩,
    .load 0, .start 1 3 false false true, .dispatch 0 false true, .commit 0 2, .commit 1 3,
    .begin 1, .launch 0]

def recovered : List (Event Nat Nat) := [.crash, .resume 2]

/-- The start that begins first takes the depth of the child; and a child that is resumed after a
crash has the depth 0. -/
theorem depth_taken_and_lost :
    ¬ (machine plainOptions).EveryState (Correct plainOptions) ({} : World Nat Nat) overtaken ∧
      ¬ (machine plainOptions).EveryState (Correct plainOptions) ({} : World Nat Nat)
        (childStarted ++ recovered) := by
  constructor
  · intro h
    have hdepth : DepthOf _ 3 1 := h.final.depth 3 ⟨3, 1⟩ rfl
    cases hdepth with
    | child hrun horigin =>
      cases hrun
      cases horigin
  · intro h
    have hdepth : DepthOf _ 2 0 := h.final.depth 2 ⟨2, 0⟩ rfl
    cases hdepth with
    | outside hrun horigin =>
      cases hrun
      cases horigin

end

end Weft.Children
