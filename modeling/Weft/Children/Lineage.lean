import Weft.Children.Model

/-! The lineage of workflows: which depth and which parent each run has, and under which conditions
on the steps the engine keeps both right. -/

namespace Weft.Children
open Weft.Lib Weft.Js

universe u

variable {ι τ : Type u}

/-! ## What is right -/

/-- The depth of a run: 0 from outside, and else one more than its parent's. -/
inductive DepthOf (runs : τ → Option (Run ι τ)) : τ → Nat → Prop where
  | outside {token : τ} {run : Run ι τ} (hrun : runs token = some run)
    (horigin : run.origin = none) :
      DepthOf runs token 0
  | child {token : τ} {run : Run ι τ} {origin : Origin τ} {n : Nat} (hrun : runs token = some run)
      (horigin : run.origin = some origin) (hparent : DepthOf runs origin.run n) :
      DepthOf runs token (n + 1)

/-- Parent, owner of the state and headers, as a start from outside or by this parent has them. -/
structure Inherited (runs : τ → Option (Run ι τ)) (workflowId : ι) (origin : Option (Origin τ))
    (ownerId parentId : Option ι) (parentToken : Option τ) (headers : Option Headers) : Prop where
  outside : origin = none →
    ownerId = some workflowId ∧ parentId = none ∧ parentToken = none ∧ headers = none
  child : ∀ o, origin = some o → ∃ parent, runs o.run = some parent ∧
    ownerId =
      (if o.abandoned then none
        else some (parent.executionStateOwnerId.getD parent.workflowId)) ∧
    parentId = some parent.workflowId ∧ parentToken = some o.run ∧ headers = o.headers

variable (options : Options ι)

section

variable [DecidableEq ι] [DecidableEq τ]

/-- What is stored of a workflow is as its run was started. -/
def Lineage (runs : τ → Option (Run ι τ)) (workflowId : ι) (state : WorkflowState ι τ) : Prop :=
  ∃ run headers, runs state.workflowExecutionToken = some run ∧ run.workflowId = workflowId ∧
    run.executionStateOwnerId = state.executionStateOwnerId ∧
    Inherited runs workflowId run.origin state.executionStateOwnerId state.parentWorkflowId
      state.parentWorkflowExecutionToken headers ∧
    state.workflowStartHeaders = selectPersistedWorkflowStartHeaders
      (runWorkflowStartInterceptor options workflowId headers)

/-- Every workflow has its lineage and its depth, and no depth is over the limit. -/
structure Correct (w : World ι τ) : Prop where
  lineage : ∀ workflowId state, w.records workflowId = some state →
    Lineage options w.runs workflowId state
  depth : ∀ workflowId execution, w.internals.executing workflowId = some execution →
    DepthOf w.runs execution.workflowExecutionToken
      (getWorkflowNestingDepth options w.internals workflowId)
  bounded : ∀ token n, DepthOf w.runs token n → n ≤ options.maxNestingDepth

end

/-! ## The condition on the steps -/

section

variable [DecidableEq ι] [DecidableEq τ]

/-- The context of a child whose start has not begun. -/
def Call.starts : Call ι τ → Option (PendingChildExecutionContext ι τ)
  | .prepared start _ => start.context
  | .committed start _ => start.context
  | _ => none

def World.starting (w : World ι τ) (call : Nat) : Option (PendingChildExecutionContext ι τ) :=
  (w.calls call).bind Call.starts

def NoneStarting (w : World ι τ) : Prop := ∀ call, w.starting call = none

/-- No parent's context waits for a preparation. -/
def NoLineagePending (internals : EngineInternals ι τ) : Prop :=
  internals.pendingParentHeaders = none ∧ internals.pendingExecutionStateOwnerId = none ∧
    internals.pendingParentWorkflowId = none ∧ internals.pendingParentWorkflowExecutionToken = none

/-- The run that is stored under an id goes on. -/
def Runs (w : World ι τ) (workflowId : ι) (token : τ) : Prop :=
  ∃ state, w.records workflowId = some state ∧ state.status = .running ∧
    state.workflowExecutionToken = token

/-- The step does not take what another start has put into the pending fields, nor a depth, a
record or headers that are gone. -/
def Undisturbed (w : World ι τ) : Event ι τ → Prop
  | .start _ _ _ _ _ => NoLineagePending w.internals
  | .load call => ∀ request currentDepth, w.calls call = some (.loading request currentDepth) →
      ∃ state, w.records request.workflowId = some state ∧
        state.workflowExecutionToken = request.run
  | .dispatch call refused _ => NoneStarting w ∧
      ∀ request currentDepth parentState,
        w.calls call = some (.loaded request currentDepth parentState) → refused = false →
          (w.internals.executing request.workflowId).map Execution.workflowExecutionToken =
              some request.run ∨
            (w.runs request.run).bind Run.headers = none ∧
              w.internals.workflowHeaders request.workflowId = none
  | .fail call => ∀ start preparation, w.calls call = some (.prepared start preparation) →
      w.internals.workflowHeaders start.workflowId = none ∨
        ∀ token, ¬ Runs w start.workflowId token
  | .begin call => ∀ start token, w.calls call = some (.committed start token) →
      (start.context = none → w.internals.pendingNestingDepth = none) ∧
        (options.inline = false → Runs w start.workflowId token)
  | .leave call => ∀ context, w.calls call = some (.leaving context) →
      w.internals.pendingNestingDepth = some context.pendingNestingDepth → NoneStarting w
  | .launch place => ∀ start, w.internals.queuedInlineWorkflowStarts[place]? = some start →
      ∀ token, Runs w start.workflowId token → token = start.workflowExecutionToken
  | .resume workflowId => ∀ state, w.records workflowId = some state →
      state.parentWorkflowId = none ∨
        options.inline = false ∧ w.internals.workflowNestingDepths workflowId ≠ none
  | _ => True

end

/-! ## Runs do not change -/

section

variable [DecidableEq ι] [DecidableEq τ]

/-- Runs are added, and only the headers of a run change. -/
def Keeps (runs runs' : τ → Option (Run ι τ)) : Prop :=
  ∀ token run, runs token = some run → ∃ run', runs' token = some run' ∧
    run'.workflowId = run.workflowId ∧ run'.origin = run.origin ∧
    run'.executionStateOwnerId = run.executionStateOwnerId

end

section

variable [DecidableEq τ]

theorem keeps_update {runs : τ → Option (Run ι τ)} {token : τ} (h : runs token = none)
    (run : Run ι τ) : Keeps runs (Function.update runs token (some run)) := by
  intro other run' hrun'
  have hne : other ≠ token := by
    rintro rfl
    rw [h] at hrun'
    cases hrun'
  exact ⟨run', (Function.update_of_ne hne _ _).trans hrun', rfl, rfl, rfl⟩

theorem keeps_headers (runs : τ → Option (Run ι τ)) (token : τ) (headers : Option Headers) :
    Keeps runs (Function.update runs token
      ((runs token).map fun run => { run with headers })) := by
  intro other run hrun
  by_cases hother : other = token
  · subst hother
    exact ⟨{ run with headers }, by rw [Function.update_self, hrun]; rfl, rfl, rfl, rfl⟩
  · exact ⟨run, (Function.update_of_ne hother _ _).trans hrun, rfl, rfl, rfl⟩

end

variable {runs runs' : τ → Option (Run ι τ)}

section

variable {options}

theorem DepthOf.keep (hkeeps : Keeps runs runs') {token : τ} {n : Nat}
    (h : DepthOf runs token n) : DepthOf runs' token n := by
  induction h with
  | outside hrun horigin =>
    obtain ⟨run', hrun', -, horigin', -⟩ := hkeeps _ _ hrun
    exact .outside hrun' (horigin'.trans horigin)
  | child hrun horigin _ ih =>
    obtain ⟨run', hrun', -, horigin', -⟩ := hkeeps _ _ hrun
    exact .child hrun' (horigin'.trans horigin) ih

/-- A run has one depth. -/
theorem DepthOf.unique {token : τ} {n m : Nat} (h : DepthOf runs token n)
    (h' : DepthOf runs token m) : n = m := by
  induction h generalizing m with
  | outside hrun horigin =>
    cases h' with
    | outside => rfl
    | child hrun' horigin' =>
      rw [hrun] at hrun'
      cases hrun'
      rw [horigin] at horigin'
      cases horigin'
  | child hrun horigin _ ih =>
    cases h' with
    | outside hrun' horigin' =>
      rw [hrun] at hrun'
      cases hrun'
      rw [horigin] at horigin'
      cases horigin'
    | child hrun' horigin' hparent' =>
      rw [hrun] at hrun'
      cases hrun'
      rw [horigin] at horigin'
      cases horigin'
      rw [ih hparent']

theorem Inherited.keep (hkeeps : Keeps runs runs') {workflowId : ι} {origin : Option (Origin τ)}
    {ownerId parentId : Option ι} {parentToken : Option τ} {headers : Option Headers}
    (h : Inherited runs workflowId origin ownerId parentId parentToken headers) :
    Inherited runs' workflowId origin ownerId parentId parentToken headers where
  outside := h.outside
  child := by
    intro o ho
    obtain ⟨parent, hparent, howner, hid, htoken, hheaders⟩ := h.child o ho
    obtain ⟨parent', hparent', hid', -, howner'⟩ := hkeeps _ _ hparent
    exact ⟨parent', hparent', by rw [howner', hid', howner], by rw [hid', hid], htoken, hheaders⟩

end

variable {workflowId : ι}

theorem Lineage.keep {options : Options ι} (hkeeps : Keeps runs runs') {state : WorkflowState ι τ}
    (h : Lineage options runs workflowId state) : Lineage options runs' workflowId state := by
  obtain ⟨run, headers, hrun, hid, howner, hinherited, hpersisted⟩ := h
  obtain ⟨run', hrun', hid', horigin', howner'⟩ := hkeeps _ _ hrun
  refine ⟨run', headers, hrun', hid'.trans hid, howner'.trans howner, ?_, hpersisted⟩
  rw [horigin']
  exact hinherited.keep hkeeps

/-! ## The invariant -/

section

variable [DecidableEq ι] [DecidableEq τ]

/-- The parent of a request is the run that issued it. -/
structure Issued (runs : τ → Option (Run ι τ)) (request : ChildRequest ι τ) (currentDepth : Nat) :
    Prop where
  run : ∃ run, runs request.run = some run ∧ run.workflowId = request.workflowId
  depth : DepthOf runs request.run currentDepth
  bounded : currentDepth + 1 ≤ options.maxNestingDepth

/-- The depth that a start is to have. -/
def Start.nestingDepth (start : Start ι τ) : Nat :=
  (start.context.map PendingChildExecutionContext.pendingNestingDepth).getD 0

/-- A child has its parent's depth and one more, and is not delayed. -/
structure Started (runs : τ → Option (Run ι τ)) (start : Start ι τ) : Prop where
  outside : start.context = none ↔ start.origin = none
  child : ∀ o, start.origin = some o → start.delayed = false ∧
    ∃ n, DepthOf runs o.run n ∧ start.nestingDepth = n + 1 ∧ n + 1 ≤ options.maxNestingDepth

def CallOk (runs : τ → Option (Run ι τ)) : Call ι τ → Prop
  | .loading request currentDepth => Issued options runs request currentDepth
  | .loaded request currentDepth parentState => Issued options runs request currentDepth ∧
      ∃ state run, parentState = some state ∧ state.workflowExecutionToken = request.run ∧
        runs request.run = some run ∧ run.executionStateOwnerId = state.executionStateOwnerId
  | .prepared start preparation => Started options runs start ∧
      Inherited runs start.workflowId start.origin preparation.executionStateOwnerId
        preparation.parentWorkflowId preparation.parentWorkflowExecutionToken
        (preparation.parentHeaders.map HeaderMap.entries)
  | .committed start token => DepthOf runs token start.nestingDepth ∧
      ∃ run, runs token = some run ∧ run.workflowId = start.workflowId
  | .leaving _ => True

/-- A run that the engine has taken up. -/
def InMemory (w : World ι τ) (workflowId : ι) (token : τ) : Prop :=
  (∃ execution, w.internals.executing workflowId = some execution ∧
      execution.workflowExecutionToken = token) ∨
    (∃ start ∈ w.internals.queuedInlineWorkflowStarts, start.workflowId = workflowId ∧
      start.workflowExecutionToken = token) ∨
    ∃ call start, w.calls call = some (.committed start token) ∧ start.workflowId = workflowId

structure Inv (w : World ι τ) : Prop where
  depths : ∀ token run, w.runs token = some run →
    ∃ n, DepthOf w.runs token n ∧ n ≤ options.maxNestingDepth
  records : ∀ workflowId state, w.records workflowId = some state →
    Lineage options w.runs workflowId state
  delayed : ∀ workflowId state run, w.records workflowId = some state →
    state.status = .pending → w.runs state.workflowExecutionToken = some run → run.origin = none
  executing : ∀ workflowId execution, w.internals.executing workflowId = some execution →
    Runs w workflowId execution.workflowExecutionToken ∧
      DepthOf w.runs execution.workflowExecutionToken
        (getWorkflowNestingDepth options w.internals workflowId)
  queued : ∀ start ∈ w.internals.queuedInlineWorkflowStarts,
    DepthOf w.runs start.workflowExecutionToken start.nestingDepth
  held : ∀ workflowId n, w.internals.workflowNestingDepths workflowId = some n →
    ∃ token, Runs w workflowId token ∧ DepthOf w.runs token n
  headers : ∀ workflowId token run, Runs w workflowId token → InMemory w workflowId token →
    w.runs token = some run →
      (w.internals.workflowHeaders workflowId).map HeaderMap.entries = run.headers
  calls : ∀ call c, w.calls call = some c → CallOk options w.runs c
  pending : ∀ call context, w.starting call = some context →
    w.internals.pendingNestingDepth = some context.pendingNestingDepth
  single : ∀ call call', (w.starting call).isSome → (w.starting call').isSome → call = call'

end

variable {options} {w : World ι τ}

theorem initial_inv : Inv options ({} : World ι τ) where
  depths := fun _ _ hrun => nomatch hrun
  records := fun _ _ hrecord => nomatch hrecord
  delayed := fun _ _ _ hrecord => nomatch hrecord
  executing := fun _ _ hexecution => nomatch hexecution
  queued := fun _ hqueued => nomatch hqueued
  held := fun _ _ hn => nomatch hn
  headers := fun _ _ _ ⟨_, hrecord, _⟩ => nomatch hrecord
  calls := fun _ _ hcall => nomatch hcall
  pending := fun _ _ hstarting => nomatch hstarting
  single := fun _ _ hs => nomatch hs

/-! ## One run under an id -/

theorem Runs.unique {token token' : τ} (h : Runs w workflowId token)
    (h' : Runs w workflowId token') : token = token' := by
  obtain ⟨state, hrecord, -, rfl⟩ := h
  obtain ⟨state', hrecord', -, rfl⟩ := h'
  rw [hrecord] at hrecord'
  cases hrecord'
  rfl

theorem Inv.bounded (h : Inv options w) {token : τ} {n : Nat} (hdepth : DepthOf w.runs token n) :
    n ≤ options.maxNestingDepth := by
  have hrun : ∃ run, w.runs token = some run := by
    cases hdepth with
    | outside hrun => exact ⟨_, hrun⟩
    | child hrun => exact ⟨_, hrun⟩
  obtain ⟨run, hrun⟩ := hrun
  obtain ⟨m, hm, hle⟩ := h.depths _ _ hrun
  exact hdepth.unique hm ▸ hle

theorem Inv.correct (h : Inv options w) : Correct options w where
  lineage := h.records
  depth := fun workflowId execution hexecution => (h.executing workflowId execution hexecution).2
  bounded := fun _ _ hdepth => h.bounded hdepth

variable {c : Call ι τ}

theorem CallOk.keep (hkeeps : Keeps runs runs') (h : CallOk options runs c) :
    CallOk options runs' c := by
  have hissued : ∀ {request currentDepth}, Issued options runs request currentDepth →
      Issued options runs' request currentDepth := by
    rintro request currentDepth ⟨⟨run, hrun, hid⟩, hdepth, hbounded⟩
    obtain ⟨run', hrun', hid', -⟩ := hkeeps _ _ hrun
    exact ⟨⟨run', hrun', hid'.trans hid⟩, hdepth.keep hkeeps, hbounded⟩
  cases c with
  | loading request currentDepth => exact hissued h
  | loaded request currentDepth parentState =>
    obtain ⟨h, state, run, hstate, htoken, hrun, howner⟩ := h
    obtain ⟨run', hrun', -, -, howner'⟩ := hkeeps _ _ hrun
    exact ⟨hissued h, state, run', hstate, htoken, hrun', howner'.trans howner⟩
  | prepared start preparation =>
    obtain ⟨⟨houtside, hchild⟩, hinherited⟩ := h
    refine ⟨⟨houtside, fun o ho => ?_⟩, hinherited.keep hkeeps⟩
    obtain ⟨hdelayed, n, hn, hdepth, hbounded⟩ := hchild o ho
    exact ⟨hdelayed, n, hn.keep hkeeps, hdepth, hbounded⟩
  | committed start token =>
    obtain ⟨hdepth, run, hrun, hid⟩ := h
    obtain ⟨run', hrun', hid', -⟩ := hkeeps _ _ hrun
    exact ⟨hdepth.keep hkeeps, run', hrun', hid'.trans hid⟩
  | leaving context => trivial

/-! ## Steps of the calls alone -/

theorem calls_self (w : World ι τ) (call : Nat) (next : Option (Call ι τ)) :
    (setCall w call next).calls call = next := by
  simp [setCall]

theorem calls_of_ne (w : World ι τ) {call other : Nat} (next : Option (Call ι τ))
    (h : other ≠ call) : (setCall w call next).calls other = w.calls other := by
  simp [setCall, h]

theorem starting_setCall (w : World ι τ) (call : Nat) (next : Option (Call ι τ)) (other : Nat) :
    (setCall w call next).starting other =
      if other = call then next.bind Call.starts else w.starting other := by
  by_cases hother : other = call
  · subst hother
    rw [if_pos rfl, World.starting, calls_self]
  · rw [if_neg hother, World.starting, calls_of_ne w next hother]
    rfl

variable {next : Option (Call ι τ)}

theorem calls_setCall {w : World ι τ} {call other : Nat}
    (h : (setCall w call next).calls other = some c) :
    (other = call ∧ next = some c) ∨ w.calls other = some c := by
  by_cases hother : other = call
  · subst hother
    exact .inl ⟨rfl, (calls_self w other next).symm.trans h⟩
  · exact .inr ((calls_of_ne w next hother).symm.trans h)

section

variable [DecidableEq ι] [DecidableEq τ]

/-- What the calls of a step leave as it is. -/
structure SameMemory (w : World ι τ) (internals : EngineInternals ι τ) : Prop where
  executing : internals.executing = w.internals.executing
  depths : internals.workflowNestingDepths = w.internals.workflowNestingDepths
  queue : internals.queuedInlineWorkflowStarts = w.internals.queuedInlineWorkflowStarts
  headers : ∀ workflowId token, Runs w workflowId token →
    internals.workflowHeaders workflowId = w.internals.workflowHeaders workflowId

end

theorem getWorkflowNestingDepth_congr {internals internals' : EngineInternals ι τ}
    (hexecuting : internals'.executing workflowId = internals.executing workflowId)
    (hdepths : internals'.workflowNestingDepths workflowId = internals.workflowNestingDepths
      workflowId) :
    getWorkflowNestingDepth options internals' workflowId =
      getWorkflowNestingDepth options internals workflowId := by
  simp only [getWorkflowNestingDepth, hexecuting, hdepths]

section

variable [DecidableEq ι] [DecidableEq τ]

/-- What the next stage of a call has to meet. -/
structure NextOk (options : Options ι) (w : World ι τ) (c : Call ι τ) : Prop where
  ok : CallOk options w.runs c
  headers : ∀ start token, c = .committed start token → ∀ run, Runs w start.workflowId token →
    w.runs token = some run →
      (w.internals.workflowHeaders start.workflowId).map HeaderMap.entries = run.headers

end

variable {internals : EngineInternals ι τ}

theorem Inv.put (h : Inv options w) (hsame : SameMemory w internals) {call : Nat}
    (hnext : ∀ c, next = some c → NextOk options w c)
    (hpending : ∀ other context, (setCall { w with internals } call next).starting other =
      some context → internals.pendingNestingDepth = some context.pendingNestingDepth)
    (hsingle : ∀ other other', ((setCall { w with internals } call next).starting other).isSome →
      ((setCall { w with internals } call next).starting other').isSome → other = other') :
    Inv options (setCall { w with internals } call next) := { h with
  executing := by
    intro workflowId execution hexecution
    have hexecution : internals.executing workflowId = some execution := hexecution
    rw [hsame.executing] at hexecution
    obtain ⟨hruns, hdepth⟩ := h.executing _ _ hexecution
    refine ⟨hruns, ?_⟩
    show DepthOf w.runs _ (getWorkflowNestingDepth options internals workflowId)
    rw [getWorkflowNestingDepth_congr (congrFun hsame.executing _) (congrFun hsame.depths _)]
    exact hdepth
  queued := by
    intro start hstart
    have hstart : start ∈ internals.queuedInlineWorkflowStarts := hstart
    rw [hsame.queue] at hstart
    exact h.queued start hstart
  held := by
    intro workflowId n hn
    have hn : internals.workflowNestingDepths workflowId = some n := hn
    rw [hsame.depths] at hn
    exact h.held workflowId n hn
  headers := by
    intro workflowId token run hruns hmemory hrun
    show (internals.workflowHeaders workflowId).map _ = _
    rw [hsame.headers workflowId token hruns]
    rcases hmemory with ⟨execution, hexecution, htoken⟩ | ⟨start, hstart, hid, htoken⟩ |
      ⟨other, start, hcall, hid⟩
    · have hexecution : internals.executing workflowId = some execution := hexecution
      rw [hsame.executing] at hexecution
      exact h.headers workflowId token run hruns (.inl ⟨execution, hexecution, htoken⟩) hrun
    · have hstart : start ∈ internals.queuedInlineWorkflowStarts := hstart
      rw [hsame.queue] at hstart
      exact h.headers workflowId token run hruns (.inr (.inl ⟨start, hstart, hid, htoken⟩)) hrun
    · rcases calls_setCall hcall with ⟨-, hnew⟩ | hold
      · subst hid
        exact (hnext _ hnew).headers start token rfl run hruns hrun
      · exact h.headers workflowId token run hruns (.inr (.inr ⟨other, start, hold, hid⟩)) hrun
  calls := by
    intro other c hc
    rcases calls_setCall hc with ⟨-, hnew⟩ | hold
    · exact (hnext c hnew).ok
    · exact h.calls other c hold
  pending := hpending
  single := hsingle }

/-- A step after which no other child is to begin than before. -/
theorem Inv.putKept (h : Inv options w) (hsame : SameMemory w internals) {call : Nat}
    (hnext : ∀ c, next = some c → NextOk options w c)
    (hkept : ∀ context, next.bind Call.starts = some context → w.starting call = some context)
    (hpending : NoneStarting w ∨ internals.pendingNestingDepth = w.internals.pendingNestingDepth) :
    Inv options (setCall { w with internals } call next) := by
  have hold : ∀ {other context},
      (setCall { w with internals } call next).starting other = some context →
        w.starting other = some context := by
    intro other context hstarting
    rw [starting_setCall] at hstarting
    split_ifs at hstarting with hother
    · exact hother ▸ hkept context hstarting
    · exact hstarting
  refine h.put hsame hnext (fun other context hstarting => ?_) (fun other other' hs hs' => ?_)
  · rcases hpending with hno | hpending
    · exact absurd ((hno other).symm.trans (hold hstarting)) nofun
    · exact hpending.trans (h.pending other context (hold hstarting))
  · obtain ⟨context, hcontext⟩ := Option.isSome_iff_exists.1 hs
    obtain ⟨context', hcontext'⟩ := Option.isSome_iff_exists.1 hs'
    refine h.single other other' ?_ ?_
    · rw [hold hcontext]
      rfl
    · rw [hold hcontext']
      rfl

/-- A step after which the call is not a start of a child that is to begin. -/
theorem Inv.putNone (h : Inv options w) (hsame : SameMemory w internals) {call : Nat}
    (hnext : ∀ c, next = some c →
      CallOk options w.runs c ∧ ∀ start token, c ≠ .committed start token)
    (hnone : next.bind Call.starts = none)
    (hpending : NoneStarting w ∨ internals.pendingNestingDepth = w.internals.pendingNestingDepth) :
    Inv options (setCall { w with internals } call next) := by
  refine h.putKept hsame (fun c hc => ⟨(hnext c hc).1, fun start token hcommitted => ?_⟩)
    (fun context hcontext => ?_) hpending
  · exact ((hnext c hc).2 start token hcommitted).elim
  · exact absurd (hnone.symm.trans hcontext) nofun

/-- A child whose start is the only one to begin. -/
theorem Inv.putStarting (h : Inv options w) (hnone : NoneStarting w)
    (hsame : SameMemory w internals) {call : Nat} (hc : CallOk options w.runs c)
    (hcommitted : ∀ start token, c ≠ .committed start token)
    {context : PendingChildExecutionContext ι τ} (hcontext : c.starts = some context)
    (hpending : internals.pendingNestingDepth = some context.pendingNestingDepth) :
    Inv options (setCall { w with internals } call (some c)) := by
  have honly : ∀ {other context'},
      (setCall { w with internals } call (some c)).starting other = some context' →
        other = call ∧ context' = context := by
    intro other context' hstarting
    rw [starting_setCall] at hstarting
    split_ifs at hstarting with hother
    · exact ⟨hother, Option.some.inj (hstarting.symm.trans hcontext)⟩
    · exact absurd ((hnone other).symm.trans hstarting) nofun
  refine h.put hsame (fun c' hc' => ?_) (fun other context' hstarting => ?_)
    (fun other other' hs hs' => ?_)
  · obtain rfl := Option.some.inj hc'
    exact ⟨hc, fun start token heq => (hcommitted start token heq).elim⟩
  · rw [(honly hstarting).2]
    exact hpending
  · obtain ⟨_, hcontext⟩ := Option.isSome_iff_exists.1 hs
    obtain ⟨_, hcontext'⟩ := Option.isSome_iff_exists.1 hs'
    rw [(honly hcontext).1, (honly hcontext').1]

theorem leave_starts (start : Start ι τ) : (leave start).bind Call.starts = none := by
  cases hcontext : start.context <;> simp [leave, hcontext, Call.starts]

theorem leave_ok (runs : τ → Option (Run ι τ)) (start : Start ι τ) (h : leave start = some c) :
    CallOk options runs c ∧ ∀ other token, c ≠ .committed other token := by
  obtain ⟨context, -, rfl⟩ := Option.map_eq_some_iff.1 h
  exact ⟨trivial, fun _ _ => nofun⟩

/-- The preparation changes nothing that the runs in memory have. -/
theorem sameMemory_prepare (h : SameMemory w internals) (workflowId : ι) :
    SameMemory w (prepareStartWorkflow internals workflowId).2 where
  executing := h.executing
  depths := h.depths
  queue := h.queue
  headers := h.headers

section

variable [DecidableEq ι]

/-- A start is prepared, or over. -/
theorem startWorkflow_cases (w : World ι τ) (call : Nat) (start : Start ι τ) (ok : Bool) :
    let prepared := prepareStartWorkflow w.internals start.workflowId
    (∃ pendingStarts, startWorkflow w call start ok =
      setCall { w with internals := { prepared.2 with pendingStarts } } call
        (some (.prepared start prepared.1))) ∨
    startWorkflow w call start ok =
      setCall { w with internals := prepared.2 } call (leave start) := by
  unfold startWorkflow
  simp only
  split_ifs
  · exact .inl ⟨_, rfl⟩
  · exact .inr rfl

theorem Inv.start (h : Inv options w) {call : Nat} {startNew delayed ok : Bool}
    (hnone : NoLineagePending w.internals) :
    Inv options (startWorkflow w call ⟨workflowId, startNew, delayed, none, none⟩ ok) := by
  obtain ⟨hheaders, howner, hparent, htoken⟩ := hnone
  have hsame : SameMemory w w.internals := ⟨rfl, rfl, rfl, fun _ _ _ => rfl⟩
  rcases startWorkflow_cases w call ⟨workflowId, startNew, delayed, none, none⟩ ok with
    ⟨pendingStarts, heq⟩ | heq
  · rw [heq]
    refine h.putNone (by exact ⟨rfl, rfl, rfl, fun _ _ _ => rfl⟩) (fun c hc => ?_) ?_ (.inr rfl)
    · cases hc
      refine ⟨⟨⟨by simp, nofun⟩, ⟨fun _ => ?_, nofun⟩⟩, fun _ _ => nofun⟩
      simp [prepareStartWorkflow, hheaders, howner, hparent, htoken]
    · rfl
  · rw [heq]
    exact h.putNone (sameMemory_prepare hsame workflowId) (fun c hc => leave_ok _ _ hc)
      (leave_starts _) (.inr rfl)

end

theorem Inv.request (h : Inv options w) {call : Nat} {request : ChildRequest ι τ}
    {execution : Execution τ}
    (hexecution : w.internals.executing request.workflowId = some execution)
    (htoken : execution.workflowExecutionToken = request.run)
    (hdepth : getWorkflowNestingDepth options w.internals request.workflowId + 1 ≤
      options.maxNestingDepth) :
    Inv options (setCall w call
      (some (.loading request
        (getWorkflowNestingDepth options w.internals request.workflowId)))) := by
  obtain ⟨hruns, hdepthOf⟩ := h.executing _ _ hexecution
  rw [htoken] at hruns hdepthOf
  obtain ⟨state, hrecord, -, hstate⟩ := id hruns
  obtain ⟨run, _, hrun, hid, -⟩ := h.records _ _ hrecord
  rw [hstate] at hrun
  have hsame : SameMemory w w.internals := ⟨rfl, rfl, rfl, fun _ _ _ => rfl⟩
  refine h.putNone hsame (fun c hc => ?_) rfl (.inr rfl)
  cases hc
  exact ⟨⟨⟨run, hrun, hid⟩, hdepthOf, hdepth⟩, fun _ _ => nofun⟩

theorem Inv.load (h : Inv options w) {call : Nat} {request : ChildRequest ι τ} {currentDepth : Nat}
    (hcall : w.calls call = some (.loading request currentDepth))
    (hown : ∃ state, w.records request.workflowId = some state ∧
      state.workflowExecutionToken = request.run) :
    Inv options (setCall w call
      (some (.loaded request currentDepth (w.records request.workflowId)))) := by
  obtain ⟨state, hrecord, htoken⟩ := hown
  obtain ⟨run, _, hrun, -, howner, -⟩ := h.records _ _ hrecord
  rw [htoken] at hrun
  have hsame : SameMemory w w.internals := ⟨rfl, rfl, rfl, fun _ _ _ => rfl⟩
  refine h.putNone hsame (fun c hc => ?_) rfl (.inr rfl)
  cases hc
  exact ⟨⟨h.calls call _ hcall, state, run, hrecord, htoken, hrun, howner⟩, fun _ _ => nofun⟩

/-- The headers of the parent's run are those that stand under its id. -/
theorem Inv.parentHeaders (h : Inv options w) {request : ChildRequest ι τ}
    (hlive : (w.internals.executing request.workflowId).map Execution.workflowExecutionToken =
        some request.run ∨
      (w.runs request.run).bind Run.headers = none ∧
        w.internals.workflowHeaders request.workflowId = none) :
    (w.internals.workflowHeaders request.workflowId).map HeaderMap.entries =
      (w.runs request.run).bind Run.headers := by
  rcases hlive with hlive | ⟨hnone, hnone'⟩
  · obtain ⟨execution, hexecution, htoken⟩ := Option.map_eq_some_iff.1 hlive
    have hruns := (h.executing _ _ hexecution).1
    rw [htoken] at hruns
    obtain ⟨state, hrecord, -, hstate⟩ := id hruns
    obtain ⟨run, _, hrun, -⟩ := h.records _ _ hrecord
    rw [hstate] at hrun
    rw [h.headers _ _ _ hruns (.inl ⟨execution, hexecution, htoken⟩) hrun, hrun]
    rfl
  · rw [hnone, hnone']
    rfl

section

variable [DecidableEq ι]

theorem Inv.dispatch (h : Inv options w) {call : Nat} {request : ChildRequest ι τ}
    {currentDepth : Nat} {parentState : Option (WorkflowState ι τ)} {refused ok : Bool}
    (hcall : w.calls call = some (.loaded request currentDepth parentState))
    (hnone : NoneStarting w)
    (hlive : refused = false →
      (w.internals.executing request.workflowId).map Execution.workflowExecutionToken =
          some request.run ∨
        (w.runs request.run).bind Run.headers = none ∧
          w.internals.workflowHeaders request.workflowId = none) :
    Inv options (dispatchChildWorkflowStart w call request currentDepth parentState
      refused ok) := by
  obtain ⟨hissued, state, run, rfl, htoken, hrun, howner⟩ := h.calls call _ hcall
  obtain ⟨run', hrun', hid⟩ := hissued.run
  obtain rfl : run = run' := Option.some.inj (hrun.symm.trans hrun')
  unfold dispatchChildWorkflowStart
  simp only
  cases refused with
  | true =>
    rw [if_pos rfl]
    refine h.putNone (by exact ⟨rfl, rfl, rfl, fun _ _ _ => rfl⟩) (fun c hc => ?_) ?_ (.inl hnone)
    · cases hc
      exact ⟨trivial, fun _ _ => nofun⟩
    · rfl
  | false =>
    rw [if_neg Bool.false_ne_true]
    have hheaders := h.parentHeaders (hlive rfl)
    let context := childContext w.internals request currentDepth (some state)
    let w' : World ι τ :=
      { w with internals := applyPendingChildExecutionContext w.internals context }
    rcases startWorkflow_cases w' call (childStart w' request context) ok with
      ⟨pendingStarts, heq⟩ | heq
    · rw [heq]
      refine h.putStarting hnone (by exact ⟨rfl, rfl, rfl, fun _ _ _ => rfl⟩) ?_ (fun _ _ => nofun)
        rfl rfl
      refine ⟨⟨⟨nofun, nofun⟩, fun o ho => ?_⟩, ⟨nofun, fun o ho => ?_⟩⟩
      · cases ho
        exact ⟨rfl, currentDepth, hissued.depth, rfl, hissued.bounded⟩
      · cases ho
        refine ⟨run, hrun, ?_, congrArg some hid.symm, congrArg some htoken, hheaders⟩
        cases habandon : request.abandon <;>
          simp [w', context, prepareStartWorkflow, applyPendingChildExecutionContext, childContext,
            habandon, howner, hid]
    · rw [heq]
      exact h.putNone (by exact ⟨rfl, rfl, rfl, fun _ _ _ => rfl⟩) (fun c hc => leave_ok _ _ hc)
        (leave_starts _) (.inl hnone)

theorem Inv.fail (h : Inv options w) {call : Nat} {start : Start ι τ}
    (hlost : w.internals.workflowHeaders start.workflowId = none ∨
      ∀ token, ¬ Runs w start.workflowId token) : Inv options (failStart w call start) := by
  unfold failStart
  simp only
  refine h.putNone ?_ (fun c hc => leave_ok _ _ hc) (leave_starts _) (.inr rfl)
  refine ⟨rfl, rfl, rfl, fun workflowId token hruns => ?_⟩
  show Function.update w.internals.workflowHeaders start.workflowId none workflowId = _
  by_cases hid : workflowId = start.workflowId
  · subst hid
    rw [Function.update_self]
    rcases hlost with hlost | hlost
    · exact hlost.symm
    · exact (hlost token hruns).elim
  · exact Function.update_of_ne hid _ _

end

section

variable [DecidableEq ι] [DecidableEq τ]

theorem Inv.leaveStep (h : Inv options w) {call : Nat}
    {context : PendingChildExecutionContext ι τ}
    (hother : w.internals.pendingNestingDepth = some context.pendingNestingDepth → NoneStarting w) :
    Inv options (setCall
      { w with internals := clearPendingChildExecutionContext w.internals context } call none) := by
  refine h.putNone (by exact ⟨rfl, rfl, rfl, fun _ _ _ => rfl⟩) (fun c hc => nomatch hc) rfl ?_
  by_cases hequal : w.internals.pendingNestingDepth = some context.pendingNestingDepth
  · exact .inl (hother hequal)
  · exact .inr (if_neg hequal)

end

end Weft.Children
