import Weft.Launch.Model
import Weft.Lib.Lists

/-! Which executions a flush launches. Where the stored workflow is still the start's own execution
when the launch is made, each execution is launched at most once and as it was started; the
`onStarted` of every start is called once in any case. -/

namespace Weft.Launch
open Weft.Lib
open scoped List

universe u

variable {ι τ π : Type u}

section

variable [DecidableEq ι] [DecidableEq τ] [DecidableEq π]

/-- The starts that a flush has not settled. -/
def Flush.unsettled (flush : Flush ι τ π) : List (QueuedInlineWorkflowExecutionStart ι τ π) :=
  (flush.current.map Prod.fst).toList ++ flush.pendingStarts

/-- The starts that a flush has not launched. -/
def Flush.unlaunched (flush : Flush ι τ π) : List (QueuedInlineWorkflowExecutionStart ι τ π) :=
  match flush.current with
  | some (_, .launched) => flush.pendingStarts
  | _ => flush.unsettled

def tokens (starts : List (QueuedInlineWorkflowExecutionStart ι τ π)) : List τ :=
  starts.map fun start => start.workflowExecutionToken

def launchedTokens (log : List (Entry τ π)) : List τ :=
  log.filterMap fun entry =>
    match entry with
    | .launched token _ => some token
    | .cancelled _ => none

/-- The starts that are queued or in a flush, unsettled. -/
def World.waiting (w : World ι τ π) : List (QueuedInlineWorkflowExecutionStart ι τ π) :=
  w.queuedInlineWorkflowStarts ++ w.flushes.flatMap Flush.unsettled

/-- The executions that are still to be launched. -/
def World.unlaunched (w : World ι τ π) : List (QueuedInlineWorkflowExecutionStart ι τ π) :=
  w.creating ++ (w.queuedInlineWorkflowStarts ++ w.flushes.flatMap Flush.unlaunched)

/-- Each execution is launched at most once, as it was started, and not after its cancellation. -/
structure LaunchedOnce (w : World ι τ π) : Prop where
  once : (launchedTokens w.log).Nodup
  own : ∀ token payload, .launched token payload ∈ w.log →
    ∃ workflowId, ⟨workflowId, token, payload⟩ ∈ w.started
  uncancelled : ∀ token payload, ¬ [.launched token payload, .cancelled token] <+ w.log

/-- The `onStarted` of a queued start is called once, or the start is still waiting. -/
structure CalledOnce (w : World ι τ π) : Prop where
  queued : w.queued.Nodup
  called : (w.calls ++ tokens w.waiting).Perm w.queued

/-- A flush that launches finds the start's own execution still running. -/
def LaunchesOwn (w : World ι τ π) : Event ι τ π → Prop
  | .advance place _ => ∀ flush ∈ w.flushes[place]?, ∀ start token,
      flush.current = some (start, .loaded (some ⟨token, true⟩)) →
        token = start.workflowExecutionToken ∧ w.store start.workflowId = some ⟨token, true⟩
  | _ => True

structure Inv (w : World ι τ π) : Prop where
  started : ∀ start ∈ w.unlaunched, start ∈ w.started
  apart : (launchedTokens w.log ++ tokens w.unlaunched).Nodup
  own : ∀ token payload, .launched token payload ∈ w.log →
    ∃ workflowId, ⟨workflowId, token, payload⟩ ∈ w.started
  uncancelled : ∀ token payload, ¬ [.launched token payload, .cancelled token] <+ w.log
  stored : ∀ workflowId state, w.store workflowId = some state →
    state.workflowExecutionToken ∈ tokens w.started
  unique : ∀ workflowId workflowId' state state', w.store workflowId = some state →
    w.store workflowId' = some state' →
    state.workflowExecutionToken = state'.workflowExecutionToken → workflowId = workflowId'
  ended : ∀ token, .cancelled token ∈ w.log →
    token ∈ tokens w.started ∧ ∀ workflowId, w.store workflowId ≠ some ⟨token, true⟩
  called : CalledOnce w
  queued : ∀ token ∈ w.queued, token ∈ tokens w.started
  creating : ∀ start ∈ w.creating, start.workflowExecutionToken ∉ w.queued

end

section

variable [DecidableEq ι]

theorem launchedTokens_mem {log : List (Entry τ π)} {token : τ}
    (h : token ∈ launchedTokens log) : ∃ payload, .launched token payload ∈ log := by
  obtain ⟨entry, hentry, htoken⟩ := List.mem_filterMap.1 h
  cases entry with
  | launched token' payload =>
    cases htoken
    exact ⟨payload, hentry⟩
  | cancelled token' => cases htoken

end

variable {w : World ι τ π}

theorem Inv.launchedOnce (h : Inv w) : LaunchedOnce w :=
  ⟨(List.nodup_append.1 h.apart).1, h.own, h.uncancelled⟩

variable {w w' : World ι τ π}

/-- Starts move on or are settled; nothing is launched. -/
theorem Inv.move (h : Inv w) (hstore : w'.store = w.store) (hstarted : w'.started = w.started)
    (hlog : w'.log = w.log) (hqueued : w'.queued = w.queued)
    (hcreating : w'.creating = w.creating) (hunlaunched : w'.unlaunched.Subperm w.unlaunched)
    (hcalled : (w'.calls ++ tokens w'.waiting).Perm (w.calls ++ tokens w.waiting)) : Inv w' where
  started := by
    rw [hstarted]
    exact fun start hstart => h.started start (hunlaunched.subset hstart)
  apart := by
    rw [hlog]
    obtain ⟨l, hperm, hsub⟩ := hunlaunched
    have hnodup : (launchedTokens w.log ++ tokens l).Nodup :=
      h.apart.sublist ((List.Sublist.refl _).append (hsub.map _))
    exact (((hperm.map fun start => start.workflowExecutionToken).append_left _).nodup_iff).1 hnodup
  own := by
    rw [hlog, hstarted]
    exact h.own
  uncancelled := by
    rw [hlog]
    exact h.uncancelled
  stored := by
    rw [hstore, hstarted]
    exact h.stored
  unique := by
    rw [hstore]
    exact h.unique
  ended := by
    rw [hlog, hstore, hstarted]
    exact h.ended
  called := by
    refine ⟨?_, ?_⟩
    · rw [hqueued]
      exact h.called.queued
    · rw [hqueued]
      exact hcalled.trans h.called.called
  queued := by
    rw [hqueued, hstarted]
    exact h.queued
  creating := by
    rw [hqueued, hcreating]
    exact h.creating

section

variable [DecidableEq ι]

/-- Starts that are discarded are settled, one after the other. -/
theorem settleDiscarded_eq (w : World ι τ π)
    (discarded : List (QueuedInlineWorkflowExecutionStart ι τ π)) :
    ∃ ids ids', settleDiscardedInlineStarts w discarded = { w with
      queuedInlineWorkflowStartIds := ids
      queuedOrLaunchingInlineWorkflowStartIds := ids'
      calls := w.calls ++ tokens discarded } := by
  induction discarded generalizing w with
  | nil =>
    refine ⟨w.queuedInlineWorkflowStartIds, w.queuedOrLaunchingInlineWorkflowStartIds, ?_⟩
    simp [settleDiscardedInlineStarts, tokens]
  | cons start discarded ih =>
    obtain ⟨ids, ids', heq⟩ := ih (settle w start)
    refine ⟨ids, ids', ?_⟩
    show settleDiscardedInlineStarts (settle w start) discarded = _
    rw [heq]
    simp [settle, tokens]

theorem Inv.drop (h : Inv w) (workflowId : ι) :
    Inv (dropQueuedInlineWorkflowStart w workflowId) := by
  unfold dropQueuedInlineWorkflowStart
  obtain ⟨ids, ids', heq⟩ := settleDiscarded_eq { w with
    queuedInlineWorkflowStarts := w.queuedInlineWorkflowStarts.filter (·.workflowId ≠ workflowId) }
    (w.queuedInlineWorkflowStarts.filter (·.workflowId = workflowId))
  rw [heq]
  refine h.move rfl rfl rfl rfl rfl (List.Sublist.subperm ?_) ?_
  · exact (List.Sublist.refl _).append (List.filter_sublist.append (List.Sublist.refl _))
  · have hfilter : (w.queuedInlineWorkflowStarts.filter (·.workflowId = workflowId) ++
        w.queuedInlineWorkflowStarts.filter (·.workflowId ≠ workflowId)).Perm
        w.queuedInlineWorkflowStarts := by
      simpa only [decide_not] using List.filter_append_perm
        (fun start : QueuedInlineWorkflowExecutionStart ι τ π =>
          decide (start.workflowId = workflowId)) w.queuedInlineWorkflowStarts
    show (w.calls ++ tokens _ ++ tokens (_ ++ w.flushes.flatMap Flush.unsettled)).Perm
      (w.calls ++ tokens (w.queuedInlineWorkflowStarts ++ w.flushes.flatMap Flush.unsettled))
    unfold tokens
    rw [List.append_assoc, ← List.map_append, ← List.append_assoc]
    exact ((hfilter.append_right _).map _).append_left _

/-- The whole queue is discarded. -/
theorem Inv.discard (h : Inv w) :
    Inv (settleDiscardedInlineStarts { w with queuedInlineWorkflowStarts := [] }
      w.queuedInlineWorkflowStarts) := by
  obtain ⟨ids, ids', heq⟩ := settleDiscarded_eq { w with queuedInlineWorkflowStarts := [] }
    w.queuedInlineWorkflowStarts
  rw [heq]
  refine h.move rfl rfl rfl rfl rfl (List.Sublist.subperm ?_) ?_
  · exact (List.Sublist.refl _).append
      ((List.nil_sublist w.queuedInlineWorkflowStarts).append (List.Sublist.refl _))
  · show (w.calls ++ tokens w.queuedInlineWorkflowStarts ++
      tokens ([] ++ w.flushes.flatMap Flush.unsettled)).Perm
      (w.calls ++ tokens (w.queuedInlineWorkflowStarts ++ w.flushes.flatMap Flush.unsettled))
    unfold tokens
    rw [List.append_assoc, ← List.map_append, List.nil_append]

theorem Inv.flush (h : Inv w) : Inv (flushQueuedInlineWorkflowStarts w) := by
  have hflag : Inv { w with queuedInlineWorkflowStartFlushScheduled := false } :=
    h.move rfl rfl rfl rfl rfl (List.Subperm.refl _) (List.Perm.refl _)
  unfold flushQueuedInlineWorkflowStarts
  dsimp only
  split_ifs with haborted hempty
  · exact hflag.discard
  · exact hflag
  · refine h.move rfl rfl rfl rfl rfl (List.Perm.subperm ?_) ?_
    · show (w.creating ++ ([] ++ (w.flushes ++
        [(⟨none, w.queuedInlineWorkflowStarts⟩ : Flush ι τ π)]).flatMap Flush.unlaunched)).Perm _
      rw [List.flatMap_append, List.flatMap_singleton, List.nil_append]
      exact List.perm_append_comm.append_left _
    · show (w.calls ++ tokens ([] ++ (w.flushes ++
        [(⟨none, w.queuedInlineWorkflowStarts⟩ : Flush ι τ π)]).flatMap Flush.unsettled)).Perm _
      rw [List.flatMap_append, List.flatMap_singleton, List.nil_append]
      exact (List.perm_append_comm.map _).append_left _

end

/-! ## A flush goes on -/

section

variable {flushes : List (Flush ι τ π)} {place : Nat} {flush flush' : Flush ι τ π}
  {f : Flush ι τ π → List (QueuedInlineWorkflowExecutionStart ι τ π)}

theorem flatMap_set_same (hplace : flushes[place]? = some flush) (hsame : f flush' = f flush) :
    ((flushes.set place flush').flatMap f).Perm (flushes.flatMap f) := by
  have hset := flatMap_set_perm (f := f) (y := flush') hplace
  rw [hsame] at hset
  exact ((List.perm_append_left_iff _).1 hset).symm

theorem flatMap_set_cons (hplace : flushes[place]? = some flush)
    {start : QueuedInlineWorkflowExecutionStart ι τ π} (hcons : f flush = start :: f flush') :
    (start :: (flushes.set place flush').flatMap f).Perm (flushes.flatMap f) := by
  have hset := flatMap_set_perm (f := f) (y := flush') hplace
  rw [hcons, List.cons_append] at hset
  refine (List.perm_append_left_iff (f flush')).1 ?_
  exact List.perm_middle.trans hset.symm

end

variable {place : Nat} {flush flush' : Flush ι τ π}

/-- A flush goes on and settles nothing. -/
theorem Inv.stay (h : Inv w) (hplace : w.flushes[place]? = some flush)
    (hunsettled : flush'.unsettled = flush.unsettled)
    (hunlaunched : flush'.unlaunched = flush.unlaunched) :
    Inv { w with flushes := w.flushes.set place flush' } := by
  refine h.move rfl rfl rfl rfl rfl (List.Perm.subperm ?_) ?_
  · exact ((flatMap_set_same hplace hunlaunched).append_left _).append_left _
  · exact (((flatMap_set_same hplace hunsettled).append_left _).map _).append_left _

variable {start : QueuedInlineWorkflowExecutionStart ι τ π}

section

variable [DecidableEq ι]

/-- A flush settles the start that it is at. -/
theorem Inv.settle (h : Inv w) (hplace : w.flushes[place]? = some flush)
    (hunsettled : flush.unsettled = start :: flush'.unsettled)
    (hunlaunched : flush.unlaunched = start :: flush'.unlaunched ∨
      flush.unlaunched = flush'.unlaunched) :
    Inv { Launch.settle w start with flushes := w.flushes.set place flush' } := by
  refine h.move rfl rfl rfl rfl rfl ?_ ?_
  · show (w.creating ++ (w.queuedInlineWorkflowStarts ++
      (w.flushes.set place flush').flatMap Flush.unlaunched)).Subperm w.unlaunched
    refine (List.subperm_append_left _).2 ((List.subperm_append_left _).2 ?_)
    rcases hunlaunched with hcons | hsame
    · exact (List.sublist_cons_self start _).subperm.trans (flatMap_set_cons hplace hcons).subperm
    · exact (flatMap_set_same hplace hsame.symm).subperm
  · have hperm := flatMap_set_cons hplace hunsettled
    show (w.calls ++ [start.workflowExecutionToken] ++ tokens (w.queuedInlineWorkflowStarts ++
      (w.flushes.set place flush').flatMap Flush.unsettled)).Perm
      (w.calls ++ tokens (w.queuedInlineWorkflowStarts ++ w.flushes.flatMap Flush.unsettled))
    rw [List.append_assoc]
    refine List.Perm.append_left _ ?_
    have hwaiting : (start :: (w.queuedInlineWorkflowStarts ++
        (w.flushes.set place flush').flatMap Flush.unsettled)).Perm
        (w.queuedInlineWorkflowStarts ++ w.flushes.flatMap Flush.unsettled) :=
      List.perm_middle.symm.trans (hperm.append_left _)
    exact hwaiting.map fun start => start.workflowExecutionToken

end

/-- A flush launches the start that it is at, whose execution is still running. -/
theorem Inv.launch (h : Inv w) (ids : List ι) (hplace : w.flushes[place]? = some flush)
    (hunsettled : flush'.unsettled = flush.unsettled)
    (hunlaunched : flush.unlaunched = start :: flush'.unlaunched)
    (hstore : w.store start.workflowId = some ⟨start.workflowExecutionToken, true⟩) : Inv { w with
      queuedInlineWorkflowStartIds := ids
      log := .launched start.workflowExecutionToken start.payload :: w.log
      flushes := w.flushes.set place flush' } := by
  have hperm : (start :: (w.creating ++ (w.queuedInlineWorkflowStarts ++
      (w.flushes.set place flush').flatMap Flush.unlaunched))).Perm w.unlaunched := by
    refine List.perm_middle.symm.trans (List.Perm.append_left _ ?_)
    exact List.perm_middle.symm.trans ((flatMap_set_cons hplace hunlaunched).append_left _)
  have hstart : start ∈ w.started := h.started start (hperm.subset List.mem_cons_self)
  refine ⟨?_, ?_, ?_, ?_, h.stored, h.unique, ?_, ⟨h.called.queued, ?_⟩, h.queued, h.creating⟩
  · exact fun s hs => h.started s (hperm.subset (List.mem_cons_of_mem _ hs))
  · refine (List.Perm.nodup_iff ?_).1 h.apart
    refine ((hperm.map fun start => start.workflowExecutionToken).symm.append_left _).trans ?_
    exact List.perm_middle
  · intro token payload hmem
    rcases List.mem_cons.1 hmem with heq | hmem
    · cases heq
      exact ⟨start.workflowId, hstart⟩
    · exact h.own token payload hmem
  · intro token payload hpair
    rcases List.cons_sublist_cons'.1 hpair with hold | ⟨heq, hrest⟩
    · exact h.uncancelled token payload hold
    · cases heq
      exact (h.ended _ (List.singleton_sublist.1 hrest)).2 start.workflowId hstore
  · intro token hmem
    rcases List.mem_cons.1 hmem with heq | hmem
    · cases heq
    · exact h.ended token hmem
  · refine List.Perm.trans ?_ h.called.called
    exact (((flatMap_set_same hplace hunsettled).append_left _).map _).append_left _

section

variable [DecidableEq ι]

theorem Inv.advance {ok : Bool} (h : Inv w) (hplace : w.flushes[place]? = some flush)
    (hown : ∀ start token, flush.current = some (start, .loaded (some ⟨token, true⟩)) →
      token = start.workflowExecutionToken ∧ w.store start.workflowId = some ⟨token, true⟩)
    (hstep : startQueuedInlineWorkflowExecution w flush ok = some (w', flush')) :
    Inv { w' with flushes := w.flushes.set place flush' } := by
  obtain ⟨current, pendingStarts⟩ := flush
  unfold startQueuedInlineWorkflowExecution at hstep
  cases current with
  | none =>
    cases pendingStarts with
    | nil => cases hstep
    | cons start pendingStarts =>
      cases hstep
      exact h.stay hplace rfl rfl
  | some current =>
    obtain ⟨start, stage⟩ := current
    cases stage with
    | loading =>
      dsimp only at hstep
      split_ifs at hstep with hok
      · cases hstep
        exact h.stay hplace rfl rfl
      · cases hstep
        exact h.settle hplace rfl (.inl rfl)
    | launched =>
      cases hstep
      exact h.settle hplace rfl (.inr rfl)
    | loaded state =>
      dsimp only at hstep
      split at hstep
      · cases hstep
        obtain ⟨rfl, hstore⟩ := hown start _ rfl
        exact h.launch _ hplace rfl rfl hstore
      · cases hstep
        exact h.settle hplace rfl (.inl rfl)

end

/-! ## Whole runs -/

theorem tokens_concat (starts : List (QueuedInlineWorkflowExecutionStart ι τ π))
    (start : QueuedInlineWorkflowExecutionStart ι τ π) :
    tokens (starts ++ [start]) = tokens starts ++ [start.workflowExecutionToken] := by
  simp [tokens]

theorem mem_tokens {starts : List (QueuedInlineWorkflowExecutionStart ι τ π)} (h : start ∈ starts) :
    start.workflowExecutionToken ∈ tokens starts :=
  List.mem_map.2 ⟨start, h, rfl⟩

section

variable [DecidableEq ι]

theorem Inv.create (h : Inv w) (hnew : start.workflowExecutionToken ∉ tokens w.started) :
    Inv { w with
      store := Function.update w.store start.workflowId
        (some ⟨start.workflowExecutionToken, true⟩)
      creating := w.creating ++ [start]
      started := w.started ++ [start] } := by
  have hperm : ((w.creating ++ [start]) ++ (w.queuedInlineWorkflowStarts ++
      w.flushes.flatMap Flush.unlaunched)).Perm (start :: w.unlaunched) := by
    rw [List.append_assoc, List.singleton_append]
    exact List.perm_middle
  have hlater : ∀ token ∈ tokens w.started, token ∈ tokens (w.started ++ [start]) := by
    intro token hmem
    rw [tokens_concat]
    exact List.mem_append_left _ hmem
  have hself : start.workflowExecutionToken ∈ tokens (w.started ++ [start]) :=
    mem_tokens (List.mem_append_right _ List.mem_cons_self)
  refine ⟨?_, ?_, ?_, h.uncancelled, ?_, ?_, ?_, ⟨h.called.queued, h.called.called⟩,
    fun token hmem => hlater token (h.queued token hmem), ?_⟩
  · intro s hs
    rcases List.mem_cons.1 (hperm.subset hs) with rfl | hs
    · exact List.mem_append_right _ List.mem_cons_self
    · exact List.mem_append_left _ (h.started s hs)
  · have hnodup : (start.workflowExecutionToken ::
        (launchedTokens w.log ++ tokens w.unlaunched)).Nodup := by
      refine List.nodup_cons.2 ⟨fun hmem => ?_, h.apart⟩
      rcases List.mem_append.1 hmem with hmem | hmem
      · obtain ⟨payload, hentry⟩ := launchedTokens_mem hmem
        obtain ⟨workflowId, hstarted⟩ := h.own _ payload hentry
        exact hnew (List.mem_map.2 ⟨_, hstarted, rfl⟩)
      · obtain ⟨s, hs, heq⟩ := List.mem_map.1 hmem
        rw [← heq] at hnew
        exact hnew (mem_tokens (h.started s hs))
    refine (List.Perm.nodup_iff ?_).2 hnodup
    exact ((hperm.map fun start => start.workflowExecutionToken).append_left _).trans
      List.perm_middle
  · intro token payload hmem
    obtain ⟨workflowId, hstarted⟩ := h.own token payload hmem
    exact ⟨workflowId, List.mem_append_left _ hstarted⟩
  · intro workflowId state hstate
    replace hstate : Function.update w.store _ _ workflowId = some state := hstate
    rw [Function.update_apply] at hstate
    split_ifs at hstate
    · rw [← Option.some.inj hstate]
      exact hself
    · exact hlater _ (h.stored workflowId state hstate)
  · -- the new token is in no other state
    intro workflowId workflowId' state state' hstate hstate' heq
    replace hstate : Function.update w.store _ _ workflowId = some state := hstate
    replace hstate' : Function.update w.store _ _ workflowId' = some state' := hstate'
    rw [Function.update_apply] at hstate hstate'
    split_ifs at hstate with hid
    · split_ifs at hstate' with hid'
      · rw [hid, hid']
      · rw [← Option.some.inj hstate] at heq
        refine (hnew ?_).elim
        rw [show start.workflowExecutionToken = state'.workflowExecutionToken from heq]
        exact h.stored workflowId' state' hstate'
    · split_ifs at hstate' with hid'
      · rw [← Option.some.inj hstate'] at heq
        refine (hnew ?_).elim
        rw [show start.workflowExecutionToken = state.workflowExecutionToken from heq.symm]
        exact h.stored workflowId state hstate
      · exact h.unique workflowId workflowId' state state' hstate hstate' heq
  · intro token hmem
    obtain ⟨hstarted, hended⟩ := h.ended token hmem
    refine ⟨hlater token hstarted, fun workflowId hstate => ?_⟩
    replace hstate : Function.update w.store _ _ workflowId = some ⟨token, true⟩ := hstate
    rw [Function.update_apply] at hstate
    split_ifs at hstate
    · cases hstate
      exact hnew hstarted
    · exact hended workflowId hstate
  · intro s hs hmem
    rcases List.mem_append.1 hs with hs | hs
    · exact h.creating s hs hmem
    · rw [List.mem_singleton.1 hs] at hmem
      exact hnew (h.queued _ hmem)

end

theorem Inv.queue (h : Inv w) (hplace : w.creating[place]? = some start) :
    Inv (queueInlineWorkflowExecutionStart { w with creating := w.creating.eraseIdx place }
      start) := by
  obtain ⟨hlt, hget⟩ := List.getElem?_eq_some_iff.1 hplace
  have herase : (start :: w.creating.eraseIdx place).Perm w.creating := by
    rw [← hget]
    exact List.getElem_cons_eraseIdx_perm hlt
  have hmem : start ∈ w.creating := List.mem_of_getElem? hplace
  have hperm : (w.creating.eraseIdx place ++ ((w.queuedInlineWorkflowStarts ++ [start]) ++
      w.flushes.flatMap Flush.unlaunched)).Perm w.unlaunched := by
    rw [List.append_assoc, List.singleton_append]
    refine (List.Perm.append_left _ List.perm_middle).trans (List.perm_middle.trans ?_)
    exact herase.append_right _
  have hnodup := (List.nodup_append.1 h.apart).2.1
  refine ⟨fun s hs => h.started s (hperm.subset hs), ?_, h.own, h.uncancelled, h.stored, h.unique,
    h.ended, ⟨?_, ?_⟩, ?_, ?_⟩
  · refine (List.Perm.nodup_iff ?_).2 h.apart
    exact (hperm.map fun start => start.workflowExecutionToken).append_left _
  · refine List.nodup_append.2 ⟨h.called.queued, List.nodup_singleton _, ?_⟩
    intro token htoken token' htoken' heq
    rw [List.mem_singleton.1 htoken'] at heq
    exact h.creating start hmem (heq ▸ htoken)
  · show (w.calls ++ tokens ((w.queuedInlineWorkflowStarts ++ [start]) ++
      w.flushes.flatMap Flush.unsettled)).Perm (w.queued ++ [start.workflowExecutionToken])
    have hwaiting : ((w.queuedInlineWorkflowStarts ++ [start]) ++
        w.flushes.flatMap Flush.unsettled).Perm (start :: w.waiting) := by
      rw [List.append_assoc, List.singleton_append]
      exact List.perm_middle
    refine ((hwaiting.map fun start => start.workflowExecutionToken).append_left _).trans ?_
    refine List.perm_middle.trans ((h.called.called.cons _).trans ?_)
    exact (List.perm_append_singleton _ _).symm
  · intro token htoken
    rcases List.mem_append.1 htoken with htoken | htoken
    · exact h.queued token htoken
    · rw [List.mem_singleton.1 htoken]
      exact mem_tokens (h.started start (List.mem_append_left _ hmem))
  · -- its token is in no other place of those that are being created
    intro s hs hqueued
    rcases List.mem_append.1 hqueued with hqueued | hqueued
    · exact h.creating s (herase.subset (List.mem_cons_of_mem _ hs)) hqueued
    · have htokens : (tokens w.creating).Nodup := by
        unfold tokens World.unlaunched at hnodup
        rw [List.map_append] at hnodup
        exact (List.nodup_append.1 hnodup).1
      have hcons := ((herase.map QueuedInlineWorkflowExecutionStart.workflowExecutionToken
        ).nodup_iff).2 htokens
      rw [List.map_cons, List.nodup_cons] at hcons
      refine hcons.1 (List.mem_map.2 ⟨s, hs, ?_⟩)
      exact List.mem_singleton.1 hqueued

section

variable [DecidableEq ι]

theorem Inv.endRun (h : Inv w) {workflowId : ι} {entry : τ → List (Entry τ π)}
    (hentry : ∀ token, entry token = [] ∨ entry token = [.cancelled token])
    (hend : Launch.endRun w workflowId entry = some w') : Inv w' := by
  unfold Launch.endRun at hend
  split at hend
  · rename_i token hstore
    cases hend
    have hstarted := h.stored workflowId _ hstore
    have hlog : launchedTokens (entry token ++ w.log) = launchedTokens w.log := by
      rcases hentry token with heq | heq
      · rw [heq]
        rfl
      · rw [heq]
        rfl
    have hmem : ∀ t p, .launched t p ∈ entry token ++ w.log → .launched t p ∈ w.log := by
      intro t p hin
      rcases hentry token with heq | heq
      · rwa [heq] at hin
      · rw [heq] at hin
        rcases List.mem_cons.1 hin with heq' | hin
        · cases heq'
        · exact hin
    -- an ended state keeps its token
    have hkeeps : ∀ id state, Function.update w.store workflowId (some ⟨token, false⟩) id =
        some state → ∃ state', w.store id = some state' ∧
          state'.workflowExecutionToken = state.workflowExecutionToken := by
      intro id state hstate
      rw [Function.update_apply] at hstate
      split_ifs at hstate with hid
      · rw [hid, ← Option.some.inj hstate]
        exact ⟨_, hstore, rfl⟩
      · exact ⟨state, hstate, rfl⟩
    refine ⟨h.started, ?_, fun t p hin => h.own t p (hmem t p hin), ?_, ?_, ?_, ?_,
      ⟨h.called.queued, h.called.called⟩, h.queued, h.creating⟩
    · show (launchedTokens (entry token ++ w.log) ++ _).Nodup
      rw [hlog]
      exact h.apart
    · intro t p hpair
      rcases hentry token with heq | heq
      · rw [heq] at hpair
        exact h.uncancelled t p hpair
      · rw [heq] at hpair
        rcases List.cons_sublist_cons'.1 hpair with hold | ⟨heq', -⟩
        · exact h.uncancelled t p hold
        · cases heq'
    · intro id state hstate
      obtain ⟨state', hstate', heq⟩ := hkeeps id state hstate
      exact heq ▸ h.stored id state' hstate'
    · intro id id' state state' hstate hstate' heq
      obtain ⟨old, hold, htoken⟩ := hkeeps id state hstate
      obtain ⟨old', hold', htoken'⟩ := hkeeps id' state' hstate'
      exact h.unique id id' old old' hold hold' (htoken.trans (heq.trans htoken'.symm))
    · intro t hin
      have hrunning : ∀ id, (t = token ∨ Entry.cancelled t ∈ w.log) →
          Function.update w.store workflowId (some ⟨token, false⟩) id ≠ some ⟨t, true⟩ := by
        intro id hcase hstate
        rw [Function.update_apply] at hstate
        split_ifs at hstate with hid
        · cases hstate
        · rcases hcase with rfl | hin
          · exact hid (h.unique id workflowId _ _ hstate hstore rfl)
          · exact (h.ended t hin).2 id hstate
      rcases hentry token with heq | heq
      · rw [heq] at hin
        exact ⟨(h.ended t hin).1, fun id => hrunning id (.inr hin)⟩
      · rw [heq] at hin
        rcases List.mem_cons.1 hin with heq' | hin
        · cases heq'
          exact ⟨hstarted, fun id => hrunning id (.inl rfl)⟩
        · exact ⟨(h.ended t hin).1, fun id => hrunning id (.inr hin)⟩
  · cases hend

end

section

variable [DecidableEq ι] [DecidableEq τ]

theorem Inv.step {event : Event ι τ π} (h : Inv w) (hown : LaunchesOwn w event)
    (hstep : launchMachine.step w event = some w') : Inv w' := by
  cases event with
  | create workflowId token payload =>
    simp only [launchMachine] at hstep
    split_ifs at hstep with hcond
    cases hstep
    refine Inv.create h (?_ :
      (⟨workflowId, token, payload⟩ : QueuedInlineWorkflowExecutionStart ι τ π
        ).workflowExecutionToken ∉ tokens w.started)
    exact fun hmem => hcond (.inl hmem)
  | queue place =>
    obtain ⟨start, hplace, hstep⟩ := Option.bind_eq_some_iff.1 hstep
    cases hstep
    exact h.queue hplace
  | drop workflowId =>
    cases hstep
    exact h.drop workflowId
  | cancel workflowId => exact h.endRun (fun token => .inr rfl) hstep
  | finish workflowId => exact h.endRun (fun token => .inl rfl) hstep
  | flush =>
    cases hstep
    exact h.flush
  | advance place ok =>
    obtain ⟨flush, hplace, hstep⟩ := Option.bind_eq_some_iff.1 hstep
    obtain ⟨⟨v, flush'⟩, hadvance, hstep⟩ := Option.bind_eq_some_iff.1 hstep
    cases hstep
    exact h.advance hplace (hown flush hplace) hadvance
  | abort =>
    cases hstep
    exact h.move rfl rfl rfl rfl rfl (List.Subperm.refl _) (List.Perm.refl _)
  | dispose =>
    cases hstep
    exact h.discard.move rfl rfl rfl rfl rfl (List.Subperm.refl _) (List.Perm.refl _)

end

theorem inv_empty : Inv ({} : World ι τ π) where
  started := fun _ h => by cases h
  apart := List.nodup_nil
  own := fun _ _ h => by cases h
  uncancelled := fun _ _ h => by cases h
  stored := fun _ _ h => by cases h
  unique := fun _ _ _ _ h => by cases h
  ended := fun _ h => by cases h
  called := ⟨List.nodup_nil, List.Perm.refl _⟩
  queued := fun _ h => by cases h
  creating := fun _ h => by cases h

section

variable [DecidableEq ι] [DecidableEq τ]

end

section

variable [DecidableEq ι] [DecidableEq τ] [DecidableEq π]

instance (w : World ι τ π) (event : Event ι τ π) : Decidable (LaunchesOwn w event) :=
  match event with
  | .advance place _ =>
    match h : w.flushes[place]? with
    | none => isTrue (by simp [LaunchesOwn, h])
    | some flush =>
      match hcurrent : flush.current with
      | some (start, .loaded (some ⟨token, true⟩)) =>
        decidable_of_iff (token = start.workflowExecutionToken ∧
          w.store start.workflowId = some ⟨token, true⟩) (by simp [LaunchesOwn, h, hcurrent])
      | some (_, .loaded (some ⟨_, false⟩)) => isTrue (by simp [LaunchesOwn, h, hcurrent])
      | some (_, .loaded none) => isTrue (by simp [LaunchesOwn, h, hcurrent])
      | some (_, .loading) => isTrue (by simp [LaunchesOwn, h, hcurrent])
      | some (_, .launched) => isTrue (by simp [LaunchesOwn, h, hcurrent])
      | none => isTrue (by simp [LaunchesOwn, h, hcurrent])
  | .create _ _ _ => isTrue trivial
  | .queue _ => isTrue trivial
  | .drop _ => isTrue trivial
  | .cancel _ => isTrue trivial
  | .finish _ => isTrue trivial
  | .flush => isTrue trivial
  | .abort => isTrue trivial
  | .dispose => isTrue trivial

/-- A workflow is cancelled and restarted under its id while a flush has its first start. -/
def restartedInFlush : List (Event Nat Nat Nat) :=
  [.create 0 1 10, .queue 0, .flush, .advance 0 true, .drop 0, .cancel 0, .create 0 2 20, .queue 0,
    .advance 0 true, .advance 0 true, .flush, .advance 1 true, .advance 1 true, .advance 1 true]

/-- The flush is over when the workflow is cancelled and restarted. -/
def restartedAfterFlush : List (Event Nat Nat Nat) :=
  [.create 0 1 10, .queue 0, .flush, .advance 0 true, .advance 0 true, .advance 0 true,
    .advance 0 true, .drop 0, .cancel 0, .create 0 2 20, .queue 0, .flush, .advance 1 true,
    .advance 1 true, .advance 1 true]

end

end Weft.Launch
