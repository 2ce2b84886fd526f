import Weft.Queue.Pool

/-! The code's queue as a pool. A scan for stale tasks takes the tasks of a queue into a list of its
own, which replaces them when it is through: what is held under a queue in between is that list and
the tasks still ahead of the scan. -/

namespace Weft.Queue

open Weft.Lib

universe u v

variable {κ : Type u} {ι : Type v} [DecidableEq κ]

namespace TaskQueue

def held (s : TaskQueue κ ι) (queue : κ) : List (Entry ι) :=
  match s.scan with
  | none => s.pending.listAt queue
  | some scan =>
    if scan.current = some queue then
      scan.remaining ++ (s.pending.listAt queue).drop scan.index
    else s.pending.listAt queue

def pool (s : TaskQueue κ ι) : Pool κ ι where
  policy := s.schedulingPolicy
  held := s.held
  parked := s.waiters.listAt
  issued := s.issued
  history := s.history

end TaskQueue

variable [DecidableEq ι]

/-- A step that hands a task out hands it to a poll that accepts it, and of all the tasks that are
held for that poll, and of the task that is just enqueued, it is the first in the policy's order. -/
def HandsFirst (s : TaskQueue κ ι) (event : Event κ ι) : Prop :=
  ∀ s', taskQueue.step s event = some s' → ∀ poll ticket,
    s'.history = s.history ++ [Outcome.handed poll ticket] →
    ∃ queue activities, s'.requests[poll]? = some (queue, activities) ∧
      ∃ entry : Entry ι, entry.ticket = ticket ∧ s'.issued[ticket]? = some entry.task ∧
        (entry ∈ s.held queue ∨ ticket = s.issued.length) ∧
        activities.contains entry.task.activityName = true ∧
        ∀ other ∈ s.held queue, activities.contains other.task.activityName = true →
          other = entry ∨ Before s.schedulingPolicy entry other

/-- An operation is completed only when it is not pending. What a callback of the scan puts into the
queue that is scanned goes to a waiter, is a duplicate, or comes behind the scan. No callback
throws. -/
def Undisturbed (s : TaskQueue κ ι) : Event κ ι → Prop
  | .complete operationId => ∀ tasks ∈ s.pending.entries, ∀ entry ∈ tasks.2,
      entry.operationId ≠ operationId
  | .enqueue queue task _ => ∀ scan ∈ s.scan, scan.current = some queue →
      task.operationId ∈ s.dispatched ∨ (s.findWaiter queue ⟨s.issued.length, task⟩).isSome ∨
        scan.index ≤ insertIndex (s.pending.listAt queue) ⟨s.issued.length, task⟩
          s.schedulingPolicy
  | .callbackThrows => False
  | _ => True

/-- How the code's own records go with what is held. -/
structure Linked (s : TaskQueue κ ι) : Prop where
  sound : s.pool.Sound
  dispatched : ∀ queue, ∀ entry ∈ s.held queue, entry.operationId ∈ s.dispatched
  timers : ∀ operationId timer, s.expirationTimers.get operationId = some timer →
    ∀ queue, ∀ entry ∈ s.held queue, entry.operationId = operationId → queue = timer.1
  tracked : ∀ operationId timer, s.expirationTimers.get operationId = some timer →
    operationId ∈ s.dispatched
  scanned : ∀ scan ∈ s.scan, ∀ queue, scan.current = some queue → ∀ entry ∈ scan.remaining,
    entry ∈ (s.pending.listAt queue).take scan.index
  requests : ∀ queue, ∀ waiter ∈ s.waiters.listAt queue,
    s.requests[waiter.poll]? = some (queue, waiter.activities)

section lists

omit [DecidableEq κ] [DecidableEq ι]

theorem listAt_putList_eq [DecidableEq κ] {W : Type v} (m : InsertionMap κ (List W)) (queue : κ)
    (l : List W) : (m.putList queue l).listAt = Function.update m.listAt queue l := by
  funext other
  rw [InsertionMap.listAt_putList, Function.update_apply]

theorem listAt_set_eq [DecidableEq κ] {W : Type v} (m : InsertionMap κ (List W)) (queue : κ)
    (l : List W) : (m.set queue l).listAt = Function.update m.listAt queue l := by
  funext other
  rw [InsertionMap.listAt_set, Function.update_apply]

/-- The first element of a list that meets a condition, and the list without it. -/
theorem split_of_find? {α : Type v} {p : α → Bool} {l : List α} {a : α} (h : l.find? p = some a) :
    p a = true ∧ ∃ before after, l = before ++ a :: after ∧ l.eraseP p = before ++ after ∧
      ∀ x ∈ before, p x = false := by
  obtain ⟨hp, before, after, rfl, hbefore⟩ := List.find?_eq_some_iff_append.1 h
  have hnot : ∀ x ∈ before, p x = false := fun x hx => by simpa using hbefore x hx
  refine ⟨hp, before, after, rfl, ?_, hnot⟩
  rw [List.eraseP_append_right _ (fun x hx => by simp [hnot x hx]), List.eraseP_cons_of_pos hp]

theorem eraseP_of_find?_none {α : Type v} {p : α → Bool} {l : List α} (h : l.find? p = none) :
    l.eraseP p = l := by
  refine List.eraseP_of_forall_not fun x hx => ?_
  simpa using List.find?_eq_none.1 h x hx

variable {tasks : List (Entry ι)} {entry : Entry ι} {policy : SchedulingPolicy}

theorem insertIndex_le (tasks : List (Entry ι)) (entry : Entry ι) (policy : SchedulingPolicy) :
    insertIndex tasks entry policy ≤ tasks.length := by
  cases policy with
  | fifo => exact le_rfl
  | lifo => exact Nat.zero_le _
  | priority => exact List.findIdx_le_length

theorem insertByPolicy_eq (tasks : List (Entry ι)) (entry : Entry ι) (policy : SchedulingPolicy) :
    insertByPolicy tasks entry policy = tasks.take (insertIndex tasks entry policy) ++
      entry :: tasks.drop (insertIndex tasks entry policy) := by
  cases policy with
  | fifo => simp [insertByPolicy, insertIndex]
  | lifo => simp [insertByPolicy, insertIndex]
  | priority =>
    simp only [insertByPolicy, insertIndex]
    cases hfind : tasks.findIdx? fun existing => decide (existing.priority < entry.priority) with
    | none =>
      have hlength := List.findIdx_eq_length.2 (List.findIdx?_eq_none_iff.1 hfind)
      simp [hlength]
    | some insertAt =>
      obtain ⟨-, hindex⟩ := List.findIdx?_eq_some_iff_findIdx_eq.1 hfind
      rw [hindex]

/-- What is ahead of the place of a new task is handed out before it. -/
theorem before_of_mem_take {other : Entry ι}
    (hmem : other ∈ tasks.take (insertIndex tasks entry policy))
    (hticket : other.ticket < entry.ticket) : Before policy other entry := by
  cases policy with
  | fifo => exact hticket
  | lifo => cases hmem
  | priority =>
    obtain ⟨i, hi, rfl⟩ := List.mem_take_iff_getElem.1 hmem
    have hnot : entry.priority ≤ tasks[i].priority := by
      simpa using List.not_of_lt_findIdx (lt_of_lt_of_le hi (Nat.min_le_left _ _))
    obtain hlt | heq := lt_or_eq_of_le hnot
    · exact .inl hlt
    · exact .inr ⟨heq.symm, hticket⟩

/-- What is behind it is handed out after it. -/
theorem before_of_mem_drop {other : Entry ι}
    (hsorted : (tasks.drop (insertIndex tasks entry policy)).Pairwise (Before policy))
    (hmem : other ∈ tasks.drop (insertIndex tasks entry policy))
    (hticket : other.ticket < entry.ticket) : Before policy entry other := by
  cases policy with
  | fifo =>
    rw [insertIndex, List.drop_length] at hmem
    cases hmem
  | lifo => exact hticket
  | priority =>
    set place := insertIndex tasks entry .priority with hplace
    have hlength : place < tasks.length := by
      by_contra hnot
      rw [List.drop_eq_nil_of_le (by omega)] at hmem
      cases hmem
    have hfirst : tasks[place].priority < entry.priority := by
      have hfound := List.findIdx_getElem (p := fun existing : Entry ι =>
        decide (existing.priority < entry.priority)) (w := hlength)
      exact of_decide_eq_true hfound
    rw [List.drop_eq_getElem_cons hlength] at hsorted hmem
    left
    obtain rfl | hlater := List.mem_cons.1 hmem
    · exact hfirst
    · obtain hlt | ⟨heq, -⟩ := (List.pairwise_cons.1 hsorted).1 other hlater
      · exact hlt.trans hfirst
      · exact heq ▸ hfirst

end lists

section steps

variable {s : TaskQueue κ ι}

omit [DecidableEq ι] in
theorem held_of_idle (hscan : s.scan = none) : s.held = s.pending.listAt := by
  funext queue
  unfold TaskQueue.held
  rw [hscan]

variable {s' : TaskQueue κ ι}

/-- Nothing is handed out where the history does not say so. -/
theorem handsFirst_of_same {event : Event κ ι} (hstep : taskQueue.step s event = some s')
    (hhistory : ∀ poll ticket, s'.history ≠ s.history ++ [.handed poll ticket]) :
    HandsFirst s event := by
  intro t ht poll ticket heq
  cases hstep.symm.trans ht
  exact (hhistory poll ticket heq).elim

omit [DecidableEq κ] [DecidableEq ι] in
theorem history_ne_concat (history : List (Outcome ι)) (outcome : Outcome ι) :
    history ≠ history ++ [outcome] := by
  intro heq
  simpa using congrArg List.length heq

/-- A queue that holds the same and waits for the same is linked as before. -/
theorem Linked.of_pool (h : Linked s) (hpool : s'.pool = s.pool)
    (hdispatched : s'.dispatched = s.dispatched)
    (htimers : s'.expirationTimers = s.expirationTimers)
    (hscanned : ∀ scan ∈ s'.scan, ∀ queue, scan.current = some queue →
      ∀ entry ∈ scan.remaining, entry ∈ (s'.pending.listAt queue).take scan.index)
    (hrequests : ∀ (poll : Nat) request, s.requests[poll]? = some request →
      s'.requests[poll]? = some request) :
    Linked s' := by
  have hheld : s'.held = s.held := congrArg Pool.held hpool
  have hparked : s'.waiters.listAt = s.waiters.listAt := congrArg Pool.parked hpool
  exact {
    sound := hpool ▸ h.sound
    dispatched := by
      rw [hheld, hdispatched]
      exact h.dispatched
    timers := by
      rw [hheld, htimers]
      exact h.timers
    tracked := by
      rw [htimers, hdispatched]
      exact h.tracked
    scanned := hscanned
    requests := by
      rw [hparked]
      exact fun queue waiter hwaiter => hrequests _ _ (h.requests queue waiter hwaiter) }

variable {queue : κ}

/-- A held task is dropped, and its id is tracked no longer or still is. -/
theorem Linked.of_drop (h : Linked s) {before after : List (Entry ι)} {entry : Entry ι}
    {outcome : Outcome ι} (hheld : s.held queue = before ++ entry :: after)
    (houtcome : outcome.ends = some entry.ticket)
    (hpool : s'.pool = s.pool.drop queue (before ++ after) outcome)
    (hdispatched : s.dispatched.erase entry.operationId ⊆ s'.dispatched)
    (htimers : s'.expirationTimers = s.expirationTimers.delete entry.operationId)
    (hscanned : ∀ scan ∈ s'.scan, ∀ queue, scan.current = some queue →
      ∀ entry ∈ scan.remaining, entry ∈ (s'.pending.listAt queue).take scan.index)
    (hrequests : ∀ (poll : Nat) request, s.requests[poll]? = some request →
      s'.requests[poll]? = some request) :
    Linked s' := by
  have hheld' : s'.held = Function.update s.held queue (before ++ after) :=
    congrArg Pool.held hpool
  have hparked : s'.waiters.listAt = s.waiters.listAt := congrArg Pool.parked hpool
  have hmem : entry ∈ s.held queue := by simp [hheld]
  have hothers : ∀ other, ∀ e ∈ s'.held other, e ∈ s.held other ∧
      e.operationId ≠ entry.operationId := by
    intro other e he
    rw [hheld'] at he
    by_cases hother : other = queue
    · subst hother
      rw [Function.update_self] at he
      have hnodup := h.sound.pendingOnce other
      change ((s.held other).map Entry.operationId).Nodup at hnodup
      rw [hheld, List.map_append, List.map_cons, List.nodup_middle, ← List.map_append] at hnodup
      refine ⟨?_, fun heq => (List.nodup_cons.1 hnodup).1 (List.mem_map.2 ⟨e, he, heq⟩)⟩
      rw [hheld]
      simp only [List.mem_append, List.mem_cons] at he ⊢
      tauto
    · rw [Function.update_of_ne hother] at he
      exact ⟨he, h.sound.pendingApart other queue hother e he entry hmem⟩
  exact {
    sound := hpool ▸ h.sound.drop hheld houtcome
    dispatched := by
      intro other e he
      obtain ⟨hold, hne⟩ := hothers other e he
      exact hdispatched (Finset.mem_erase.2 ⟨hne, h.dispatched other e hold⟩)
    timers := by
      intro operationId timer htimer other e he heq
      rw [htimers] at htimer
      obtain ⟨-, htimer⟩ := InsertionMap.of_get_delete htimer
      exact h.timers operationId timer htimer other e (hothers other e he).1 heq
    tracked := by
      intro operationId timer htimer
      rw [htimers] at htimer
      obtain ⟨hne, htimer⟩ := InsertionMap.of_get_delete htimer
      exact hdispatched (Finset.mem_erase.2 ⟨hne, h.tracked operationId timer htimer⟩)
    scanned := hscanned
    requests := by
      rw [hparked]
      exact fun other waiter hwaiter => hrequests _ _ (h.requests other waiter hwaiter) }

/-- An operation that is not pending is completed. -/
theorem Linked.complete (h : Linked s) (hscan : s.scan = none) {operationId : ι}
    (habsent : ∀ tasks ∈ s.pending.entries, ∀ entry ∈ tasks.2, entry.operationId ≠ operationId) :
    Linked (s.complete operationId) := by
  have hheld : (s.complete operationId).held = s.held := rfl
  have hnot : ∀ queue, ∀ entry ∈ s.held queue, entry.operationId ≠ operationId := by
    intro queue entry hentry
    rw [held_of_idle hscan] at hentry
    unfold InsertionMap.listAt at hentry
    cases hget : s.pending.get queue with
    | none =>
      rw [hget] at hentry
      cases hentry
    | some tasks =>
      rw [hget] at hentry
      exact habsent _ (InsertionMap.get_eq_some_iff.1 hget) entry hentry
  exact {
    sound := h.sound.complete hnot
    dispatched := by
      intro queue entry hentry
      exact Finset.mem_erase.2 ⟨hnot queue entry hentry, h.dispatched queue entry hentry⟩
    timers := by
      intro id timer htimer queue entry hentry heq
      obtain ⟨-, htimer⟩ := InsertionMap.of_get_delete htimer
      exact h.timers id timer htimer queue entry hentry heq
    tracked := by
      intro id found hfound
      obtain ⟨hne, hfound⟩ := InsertionMap.of_get_delete hfound
      exact Finset.mem_erase.2 ⟨hne, h.tracked id found hfound⟩
    scanned := by
      intro scan hmem
      change scan ∈ s.scan at hmem
      rw [hscan] at hmem
      cases hmem
    requests := h.requests }

/-- A waiter gives up. -/
theorem Linked.dropWaiter (h : Linked s) (queue : κ) (poll : Nat) :
    Linked (s.dropWaiter queue poll) := by
  have hsub : ∀ other, ∀ waiter ∈ (s.dropWaiter queue poll).waiters.listAt other,
      waiter ∈ s.waiters.listAt other := by
    intro other waiter hwaiter
    change waiter ∈ (s.waiters.putList queue _).listAt other at hwaiter
    rw [listAt_putList_eq, Function.update_apply] at hwaiter
    split at hwaiter
    · rename_i heq
      rw [heq]
      exact List.mem_of_mem_eraseP hwaiter
    · exact hwaiter
  exact { h with
    sound := h.sound.wait fun other waiter hwaiter => h.sound.noneParked other waiter
      (hsub other waiter hwaiter)
    requests := fun other waiter hwaiter => h.requests other waiter (hsub other waiter hwaiter) }

variable {activities : List String}

/-- A poll takes the first task that it accepts. -/
theorem Linked.poll_taken (h : Linked s) (hscan : s.scan = none) {entry : Entry ι}
    (hfind : (s.pending.listAt queue).find? (Waiter.accepts ⟨s.requests.length, activities⟩) =
      some entry) :
    Linked (s.poll queue activities false) ∧
      HandsFirst s (.poll queue activities false) := by
  obtain ⟨haccepts, before, after, hsplit, herase, hbefore⟩ := split_of_find? hfind
  have hpolled : s.poll queue activities false =
      ({ s with
        requests := s.requests ++ [(queue, activities)]
        pending := s.pending.putList queue (before ++ after)
        history := s.history ++ [.handed s.requests.length entry.ticket] } :
          TaskQueue κ ι).cancelExpiration entry.operationId := by
    simp only [TaskQueue.poll, Bool.false_eq_true, ↓reduceIte, hfind, herase]
  have hheld : s.held queue = before ++ entry :: after := by
    rw [held_of_idle hscan, hsplit]
  have hmem : entry ∈ s.held queue := by simp [hheld]
  have hlater : ∀ (poll : Nat) request, s.requests[poll]? = some request →
      (s.requests ++ [(queue, activities)])[poll]? = some request := by
    intro poll request hrequest
    rwa [List.getElem?_append_left (List.getElem?_eq_some_iff.1 hrequest).1]
  constructor
  · rw [hpolled]
    have hends : (.handed s.requests.length entry.ticket : Outcome ι).ends = some entry.ticket :=
      rfl
    refine h.of_drop hheld hends ?_ ?_ rfl ?_ hlater
    · unfold TaskQueue.pool Pool.drop
      rw [held_of_idle hscan, held_of_idle (by exact hscan)]
      congr 1
      exact listAt_putList_eq s.pending queue (before ++ after)
    · exact Finset.erase_subset _ _
    · intro scan hscan'
      change scan ∈ s.scan at hscan'
      rw [hscan] at hscan'
      cases hscan'
  · intro s' hs' poll ticket hhistory
    have hs : s' = s.poll queue activities false := by
      simp only [taskQueue, hscan, Option.some.injEq] at hs'
      exact hs'.symm
    subst hs
    rw [hpolled] at hhistory
    obtain ⟨rfl, rfl⟩ : s.requests.length = poll ∧ entry.ticket = ticket := by
      have hlast := List.append_cancel_left hhistory
      simpa using hlast
    refine ⟨queue, activities, ?_, entry, rfl, ?_, .inl hmem, haccepts, ?_⟩
    · rw [hpolled]
      exact List.getElem?_concat_length
    · rw [hpolled]
      exact h.sound.issued queue entry hmem
    · intro other hother haccepted
      rw [hheld] at hother
      obtain hahead | hrest := List.mem_append.1 hother
      · have hnot := hbefore other hahead
        unfold Waiter.accepts at hnot
        rw [haccepted] at hnot
        cases hnot
      · obtain rfl | hafter := List.mem_cons.1 hrest
        · exact .inl rfl
        · have hsorted := h.sound.sorted queue
          change (s.held queue).Pairwise _ at hsorted
          rw [hheld] at hsorted
          exact .inr ((List.pairwise_cons.1 (List.pairwise_append.1 hsorted).2.1).1 other hafter)

/-- The requests that came before are still there after another one. -/
theorem Linked.requested (h : Linked s) (request : κ × List String) :
    Linked { s with requests := s.requests ++ [request] } := by
  refine h.of_pool rfl rfl rfl h.scanned fun poll found hfound => ?_
  exact (List.getElem?_append_left (List.getElem?_eq_some_iff.1 hfound).1).trans hfound

/-- A poll parks that accepts none of the pending tasks. -/
theorem Linked.poll_parked (h : Linked s) (hscan : s.scan = none)
    (hfind : (s.pending.listAt queue).find? (Waiter.accepts ⟨s.requests.length, activities⟩) =
      none) :
    Linked (s.poll queue activities false) ∧
      (s.poll queue activities false).history = s.history := by
  set waiter : Waiter := ⟨s.requests.length, activities⟩ with hwaiter
  set parked := s.waiters.set queue (s.waiters.listAt queue ++ [waiter]) with hparked
  have hpolled : s.poll queue activities false =
      { s with
        requests := s.requests ++ [(queue, activities)]
        waiters := parked } := by
    rw [hwaiter] at hfind
    simp only [TaskQueue.poll, Bool.false_eq_true, ↓reduceIte, hfind, hparked, hwaiter]
  have hmem : ∀ other, ∀ w ∈ parked.listAt other,
      w ∈ s.waiters.listAt other ∨ other = queue ∧ w = waiter := by
    intro other w hw
    rw [hparked, listAt_set_eq, Function.update_apply] at hw
    split at hw
    · rename_i heq
      subst heq
      obtain hold | hnew := List.mem_append.1 hw
      · exact .inl hold
      · exact .inr ⟨rfl, List.mem_singleton.1 hnew⟩
    · exact .inl hw
  have hrequested := h.requested (queue, activities)
  rw [hpolled]
  refine ⟨{ hrequested with
    sound := hrequested.sound.wait fun other w hw entry hentry => ?_
    requests := fun other w hw => ?_ }, rfl⟩
  · obtain hold | ⟨rfl, rfl⟩ := hmem other w hw
    · exact h.sound.noneParked other w hold entry hentry
    · change entry ∈ s.held other at hentry
      rw [held_of_idle hscan] at hentry
      simpa using List.find?_eq_none.1 hfind entry hentry
  · obtain hold | ⟨rfl, rfl⟩ := hmem other w hw
    · exact hrequested.requests other w hold
    · exact List.getElem?_concat_length

/-- A pending task expires, or a timer finds none. -/
theorem Linked.expireTask (h : Linked s) (hscan : s.scan = none) {operationId : ι} {timer : κ × Int}
    (htimer : s.expirationTimers.get operationId = some timer) :
    Linked (s.expireTask timer.1 operationId) := by
  set isTask : Entry ι → Bool := fun entry => entry.operationId = operationId with hisTask
  set tasks := s.pending.listAt timer.1 with htasks
  have hnone : ∀ scan ∈ (s.expireTask timer.1 operationId).scan, ∀ queue,
      scan.current = some queue → ∀ entry ∈ scan.remaining,
        entry ∈ ((s.expireTask timer.1 operationId).pending.listAt queue).take scan.index := by
    intro scan hscan'
    change scan ∈ s.scan at hscan'
    rw [hscan] at hscan'
    cases hscan'
  cases hfind : tasks.find? isTask with
  | some entry =>
    obtain ⟨hid, before, after, hsplit, herase, -⟩ := split_of_find? hfind
    have hid' : entry.operationId = operationId := of_decide_eq_true hid
    have hheld : s.held timer.1 = before ++ entry :: after := by
      rw [held_of_idle hscan, ← htasks, hsplit]
    have hends : (.expired entry.ticket : Outcome ι).ends = some entry.ticket := rfl
    refine h.of_drop hheld hends ?_ ?_ ?_ hnone fun _ _ hrequest => hrequest
    · unfold TaskQueue.pool Pool.drop
      rw [held_of_idle hscan, held_of_idle (by exact hscan)]
      congr 1
      · change (s.pending.putList timer.1 (tasks.eraseP isTask)).listAt = _
        rw [herase]
        exact listAt_putList_eq s.pending timer.1 (before ++ after)
      · change s.history ++ (tasks.find? isTask).toList.map _ = _
        rw [hfind]
        rfl
    · rw [hid']
      exact Finset.Subset.refl _
    · rw [hid']
      rfl
  | none =>
    have hheld : (s.expireTask timer.1 operationId).held = s.held := by
      rw [held_of_idle hscan, held_of_idle (by exact hscan)]
      change (s.pending.putList timer.1 (tasks.eraseP isTask)).listAt = _
      rw [eraseP_of_find?_none hfind, listAt_putList_eq, htasks, Function.update_eq_self]
    have hpool : (s.expireTask timer.1 operationId).pool = s.pool := by
      unfold TaskQueue.pool
      rw [hheld]
      congr 1
      change s.history ++ (tasks.find? isTask).toList.map _ = _
      rw [hfind]
      exact List.append_nil _
    exact {
      sound := hpool ▸ h.sound
      dispatched := by
        intro queue entry hentry
        rw [hheld] at hentry
        refine Finset.mem_erase.2 ⟨fun heq => ?_, h.dispatched queue entry hentry⟩
        obtain rfl := h.timers operationId timer htimer queue entry hentry heq
        rw [held_of_idle hscan] at hentry
        exact List.find?_eq_none.1 hfind entry hentry (decide_eq_true heq)
      timers := by
        intro id found hfound queue entry hentry heq
        rw [hheld] at hentry
        obtain ⟨-, hfound⟩ := InsertionMap.of_get_delete hfound
        exact h.timers id found hfound queue entry hentry heq
      tracked := by
        intro id found hfound
        obtain ⟨hne, hfound⟩ := InsertionMap.of_get_delete hfound
        exact Finset.mem_erase.2 ⟨hne, h.tracked id found hfound⟩
      scanned := hnone
      requests := h.requests }

section scanning

variable {scan : Scan κ ι}

omit [DecidableEq ι] in
theorem held_of_scan (hscan : s.scan = some scan) (queue : κ) :
    s.held queue = if scan.current = some queue then
      scan.remaining ++ (s.pending.listAt queue).drop scan.index
    else s.pending.listAt queue := by
  unfold TaskQueue.held
  rw [hscan]

/-- A scan that moves on without dropping anything. -/
theorem Linked.moved (h : Linked s) {moved : Option (Scan κ ι)}
    (hheld : ({ s with scan := moved } : TaskQueue κ ι).held = s.held)
    (hscanned : ∀ scan ∈ moved, ∀ queue, scan.current = some queue → ∀ entry ∈ scan.remaining,
      entry ∈ (s.pending.listAt queue).take scan.index) :
    Linked { s with scan := moved } := by
  refine h.of_pool ?_ rfl rfl hscanned fun _ _ hrequest => hrequest
  unfold TaskQueue.pool
  rw [hheld]

omit [DecidableEq ι] in
/-- Between two queues everything is in its place. -/
theorem held_between {moved : Scan κ ι} (hcurrent : moved.current = none) :
    ({ s with scan := some moved } : TaskQueue κ ι).held = s.pending.listAt := by
  funext queue
  rw [held_of_scan rfl, hcurrent]
  exact if_neg nofun

/-- The scan begins with a queue. -/
theorem Linked.scan_begin (h : Linked s) (hscan : s.scan = some scan)
    (hcurrent : scan.current = none)
    (queue : κ) : Linked { s with scan := some { scan with
      current := some queue
      index := 0
      remaining := [] } } := by
  refine h.moved ?_ ?_
  · have hbetween : s.held = s.pending.listAt := by
      have hsame : s = { s with scan := some scan } := by rw [← hscan]
      rw [hsame]
      exact held_between hcurrent
    rw [hbetween]
    funext other
    rw [held_of_scan rfl]
    split
    · exact List.nil_append _
    · rfl
  · rintro moved hmoved other - entry hentry
    cases hmoved
    cases hentry

variable {queue : κ}

/-- A task that is not stale is kept. -/
theorem Linked.scan_keep (h : Linked s) (hscan : s.scan = some scan)
    (hcurrent : scan.current = some queue) {entry : Entry ι}
    (hentry : (s.pending.listAt queue)[scan.index]? = some entry) :
    Linked { s with scan := some { scan with
      index := scan.index + 1
      remaining := scan.remaining ++ [entry] } } := by
  obtain ⟨hlength, hget⟩ := List.getElem?_eq_some_iff.1 hentry
  refine h.moved ?_ ?_
  · funext other
    rw [held_of_scan rfl, held_of_scan hscan]
    change (if scan.current = some other then _ else _) = _
    by_cases hother : scan.current = some other
    · rw [if_pos hother, if_pos hother]
      obtain rfl : queue = other := Option.some.inj (hcurrent.symm.trans hother)
      change (scan.remaining ++ [entry]) ++ (s.pending.listAt queue).drop (scan.index + 1) = _
      rw [List.drop_eq_getElem_cons hlength, hget, List.append_assoc]
      rfl
    · rw [if_neg hother, if_neg hother]
  · rintro moved hmoved other hother e he
    cases hmoved
    change scan.current = some other at hother
    obtain rfl : queue = other := Option.some.inj (hcurrent.symm.trans hother)
    change e ∈ (s.pending.listAt queue).take (scan.index + 1)
    rw [List.take_add_one, hentry]
    obtain hold | hnew := List.mem_append.1 he
    · exact List.mem_append_left _ (h.scanned scan hscan queue hcurrent e hold)
    · exact List.mem_append_right _ hnew

/-- A stale task is dropped. -/
theorem Linked.removeTask (h : Linked s) (hscan : s.scan = some scan)
    (hcurrent : scan.current = some queue) {entry : Entry ι}
    (hentry : (s.pending.listAt queue)[scan.index]? = some entry) :
    Linked (s.removeTask scan entry) := by
  obtain ⟨hlength, hget⟩ := List.getElem?_eq_some_iff.1 hentry
  have hheld : s.held queue =
      scan.remaining ++ entry :: (s.pending.listAt queue).drop (scan.index + 1) := by
    rw [held_of_scan hscan, if_pos hcurrent, List.drop_eq_getElem_cons hlength, hget]
  have hends : (.removed entry.ticket : Outcome ι).ends = some entry.ticket := rfl
  refine h.of_drop hheld hends ?_ (Finset.Subset.refl _) rfl ?_ fun _ _ hrequest => hrequest
  · unfold TaskQueue.pool Pool.drop
    congr 1
    funext other
    rw [held_of_scan rfl, Function.update_apply]
    change (if scan.current = some other then _ else _) = _
    by_cases hother : other = queue
    · subst hother
      rw [if_pos rfl, if_pos hcurrent]
      rfl
    · have hne : ¬ scan.current = some other := by
        intro heq
        exact hother (Option.some.inj (heq.symm.trans hcurrent))
      rw [if_neg hother, if_neg hne]
      change _ = s.held other
      rw [held_of_scan hscan, if_neg hne]
      rfl
  · rintro moved hmoved other hother e he
    cases hmoved
    change scan.current = some other at hother
    obtain rfl : queue = other := Option.some.inj (hcurrent.symm.trans hother)
    refine (List.take_subset_take_left _ (Nat.le_succ scan.index)) ?_
    exact h.scanned scan hscan queue hcurrent e he

/-- What remains of a queue takes its place. -/
theorem Linked.finishQueue (h : Linked s) (hscan : s.scan = some scan)
    (hcurrent : scan.current = some queue) (hend : (s.pending.listAt queue)[scan.index]? = none) :
    Linked (s.finishQueue scan queue) := by
  refine h.of_pool ?_ rfl rfl ?_ fun _ _ hrequest => hrequest
  · unfold TaskQueue.pool
    congr 1
    funext other
    rw [held_of_scan rfl, if_neg nofun, held_of_scan hscan]
    change (s.pending.putList queue scan.remaining).listAt other = _
    rw [InsertionMap.listAt_putList]
    by_cases hother : other = queue
    · subst hother
      rw [if_pos rfl, if_pos hcurrent,
        List.drop_eq_nil_of_le (List.getElem?_eq_none_iff.1 hend), List.append_nil]
    · have hne : ¬ scan.current = some other := by
        intro heq
        exact hother (Option.some.inj (heq.symm.trans hcurrent))
      rw [if_neg hother, if_neg hne]
  · rintro moved hmoved other hother
    cases hmoved
    cases hother

/-- However the scan goes on, the queue stays linked. -/
theorem Linked.scanNext (h : Linked s) (hscan : s.scan = some scan) : Linked (s.scanNext scan) := by
  unfold TaskQueue.scanNext
  cases hcurrent : scan.current with
  | none =>
    simp only
    cases s.pending.entries[scan.position]? with
    | none =>
      refine h.moved ?_ nofun
      have hsame : s = { s with scan := some scan } := by rw [← hscan]
      rw [held_of_idle rfl]
      conv_rhs => rw [hsame]
      exact (held_between hcurrent).symm
    | some tasks => exact h.scan_begin hscan hcurrent tasks.1
  | some queue =>
    simp only
    cases hentry : (s.pending.listAt queue)[scan.index]? with
    | none => exact h.finishQueue hscan hcurrent hentry
    | some entry =>
      simp only
      split
      · exact h.removeTask hscan hcurrent hentry
      · have hkeep := h.scan_keep hscan hcurrent hentry
        rw [hcurrent] at hkeep
        exact hkeep

end scanning

section enqueue

variable {queue : κ} {task : PendingTask ι} {onComplete : Bool}

omit [DecidableEq κ] in
/-- Scheduling sets the timer of the one id at most. -/
theorem scheduleExpiration_eq (s : TaskQueue κ ι) (queue : κ) (operationId : ι) :
    ∃ timers, s.scheduleExpiration queue operationId = { s with expirationTimers := timers } ∧
      ∀ id timer, timers.get id = some timer →
        s.expirationTimers.get id = some timer ∨ id = operationId ∧ timer.1 = queue := by
  unfold TaskQueue.scheduleExpiration
  split
  · exact ⟨s.expirationTimers, rfl, fun id timer htimer => .inl htimer⟩
  · split
    · exact ⟨s.expirationTimers, rfl, fun id timer htimer => .inl htimer⟩
    · refine ⟨_, rfl, fun id timer htimer => ?_⟩
      rw [InsertionMap.get_set] at htimer
      split at htimer
      · rename_i hid
        exact .inr ⟨hid, congrArg Prod.fst (Option.some.inj htimer).symm⟩
      · exact .inl htimer

/-- Nothing that is held has the id of a task that is accepted. -/
theorem Linked.fresh (h : Linked s) (hnew : task.operationId ∉ s.dispatched) :
    ∀ other, ∀ entry ∈ s.held other, entry.operationId ≠ task.operationId := by
  intro other entry hentry heq
  exact hnew (heq ▸ h.dispatched other entry hentry)

/-- A task goes to the first parked poll that accepts it. -/
theorem Linked.enqueue_handed (h : Linked s) (hnew : task.operationId ∉ s.dispatched)
    {waiter : Waiter}
    (hfind : s.findWaiter queue (s.accept task onComplete).2 = some waiter) :
    Linked (s.enqueue queue task onComplete) ∧
      (s.enqueue queue task onComplete).history =
        s.history ++ [.handed waiter.poll s.issued.length] ∧
      (s.enqueue queue task onComplete).requests = s.requests ∧
      (s.enqueue queue task onComplete).issued = s.issued ++
        [(s.accept task onComplete).2.task] := by
  set accepted := (s.accept task onComplete).1 with haccepted
  set entry := (s.accept task onComplete).2 with hentry
  have henqueued : s.enqueue queue task onComplete =
      { accepted.dropWaiter queue waiter.poll with
        history := s.history ++ [.handed waiter.poll entry.ticket] } := by
    have hfind' : accepted.findWaiter queue entry = some waiter := hfind
    unfold TaskQueue.enqueue
    rw [if_neg hnew]
    simp only [← haccepted, ← hentry, hfind']
  have hsub : ∀ other, ∀ w ∈ (accepted.dropWaiter queue waiter.poll).waiters.listAt other,
      w ∈ s.waiters.listAt other := by
    intro other w hw
    change w ∈ (s.waiters.putList queue _).listAt other at hw
    rw [listAt_putList_eq, Function.update_apply] at hw
    split at hw
    · rename_i heq
      rw [heq]
      exact List.mem_of_mem_eraseP hw
    · exact hw
  rw [henqueued]
  refine ⟨{
    sound := h.sound.hand waiter.poll entry.task hsub
    dispatched := fun other e he => Finset.mem_insert_of_mem (h.dispatched other e he)
    timers := h.timers
    tracked := fun id timer htimer => Finset.mem_insert_of_mem (h.tracked id timer htimer)
    scanned := h.scanned
    requests := fun other w hw => h.requests other w (hsub other w hw) }, rfl, rfl, rfl⟩

omit [DecidableEq ι] in
/-- The tasks of a queue that a new one finds ahead of it and behind it, and what is held with
it. -/
theorem held_insert (queue : κ) (entry : Entry ι)
    (hscanned : ∀ scan ∈ s.scan, ∀ queue, scan.current = some queue → ∀ e ∈ scan.remaining,
      e ∈ (s.pending.listAt queue).take scan.index)
    (hbehind : ∀ scan ∈ s.scan, scan.current = some queue →
      scan.index ≤ insertIndex (s.pending.listAt queue) entry s.schedulingPolicy) :
    ∃ before after, s.held queue = before ++ after ∧
      (∀ e ∈ before, e ∈ (s.pending.listAt queue).take
        (insertIndex (s.pending.listAt queue) entry s.schedulingPolicy)) ∧
      after = (s.pending.listAt queue).drop
        (insertIndex (s.pending.listAt queue) entry s.schedulingPolicy) ∧
      ∀ s' : TaskQueue κ ι, s'.scan = s.scan →
        s'.pending = s.pending.set queue
          (insertByPolicy (s.pending.listAt queue) entry s.schedulingPolicy) →
        s'.held = Function.update s.held queue (before ++ entry :: after) := by
  set tasks := s.pending.listAt queue with htasks
  set place := insertIndex tasks entry s.schedulingPolicy with hplace
  have hlength : place ≤ tasks.length := insertIndex_le tasks entry s.schedulingPolicy
  have hinserted : ∀ s' : TaskQueue κ ι,
      s'.pending = s.pending.set queue (insertByPolicy tasks entry s.schedulingPolicy) →
      ∀ other, s'.pending.listAt other =
        if other = queue then tasks.take place ++ entry :: tasks.drop place
        else s.pending.listAt other := by
    intro s' hpending other
    rw [hpending, InsertionMap.listAt_set, insertByPolicy_eq]
  by_cases hcurrent : ∃ scan, s.scan = some scan ∧ scan.current = some queue
  · obtain ⟨scan, hscan, hqueue⟩ := hcurrent
    have hindex : scan.index ≤ place := hbehind scan hscan hqueue
    refine ⟨scan.remaining ++ (tasks.take place).drop scan.index, tasks.drop place, ?_, ?_, rfl, ?_⟩
    · rw [held_of_scan hscan, if_pos hqueue, List.append_assoc, ← htasks]
      congr 1
      conv_lhs => rw [← List.take_append_drop place tasks]
      exact List.drop_append_of_le_length (by rw [List.length_take]; omega)
    · intro e he
      obtain hremaining | hahead := List.mem_append.1 he
      · exact List.take_subset_take_left _ hindex (hscanned scan hscan queue hqueue e hremaining)
      · exact List.mem_of_mem_drop hahead
    · intro s' hscan' hpending
      funext other
      rw [held_of_scan (hscan'.trans hscan), Function.update_apply, hinserted s' hpending]
      by_cases hother : other = queue
      · subst hother
        rw [if_pos hqueue, if_pos rfl, if_pos rfl,
          List.drop_append_of_le_length (by rw [List.length_take]; omega), List.append_assoc]
      · have hne : ¬ scan.current = some other := by
          intro heq
          exact hother (Option.some.inj (heq.symm.trans hqueue))
        rw [if_neg hne, if_neg hother, if_neg hother, held_of_scan hscan, if_neg hne]
  · have hidle : ∀ s' : TaskQueue κ ι, s'.scan = s.scan →
      s'.held queue = s'.pending.listAt queue := by
      intro s' hscan'
      cases hscan : s.scan with
      | none => rw [held_of_idle (hscan'.trans hscan)]
      | some scan =>
        rw [held_of_scan (hscan'.trans hscan), if_neg]
        exact fun hqueue => hcurrent ⟨scan, hscan, hqueue⟩
    refine ⟨tasks.take place, tasks.drop place, ?_, fun e he => he, rfl, ?_⟩
    · rw [hidle s rfl, List.take_append_drop]
    · intro s' hscan' hpending
      funext other
      rw [Function.update_apply]
      by_cases hother : other = queue
      · subst hother
        rw [hidle s' hscan', hinserted s' hpending, if_pos rfl, if_pos rfl]
      · have hlist := hinserted s' hpending other
        rw [if_neg hother] at hlist ⊢
        cases hscan : s.scan with
        | none => rw [held_of_idle (hscan'.trans hscan), held_of_idle hscan, hlist]
        | some scan => rw [held_of_scan (hscan'.trans hscan), held_of_scan hscan, hlist]

/-- A task joins the pending ones of its queue, where the scan has not been yet. -/
theorem Linked.enqueue_queued (h : Linked s) (hnew : task.operationId ∉ s.dispatched)
    (hfind : s.findWaiter queue (s.accept task onComplete).2 = none)
    (hbehind : ∀ scan ∈ s.scan, scan.current = some queue →
      scan.index ≤ insertIndex (s.pending.listAt queue) (s.accept task onComplete).2
        s.schedulingPolicy) :
    Linked (s.enqueue queue task onComplete) ∧
      (s.enqueue queue task onComplete).history = s.history := by
  set accepted := (s.accept task onComplete).1 with haccepted
  set entry := (s.accept task onComplete).2 with hentry
  set queued : TaskQueue κ ι := { accepted with
    pending := s.pending.set queue
      (insertByPolicy (s.pending.listAt queue) entry s.schedulingPolicy) } with hqueued
  have henqueued : s.enqueue queue task onComplete =
      queued.scheduleExpiration queue task.operationId := by
    have hfind' : accepted.findWaiter queue entry = none := hfind
    unfold TaskQueue.enqueue
    rw [if_neg hnew]
    simp only [← haccepted, ← hentry, hfind']
    rfl
  obtain ⟨before, after, hheld, hbefore, hafter, hheld'⟩ :=
    held_insert queue entry h.scanned hbehind
  have hfresh := h.fresh hnew
  have htickets : ∀ e ∈ s.held queue, e.ticket < entry.ticket := by
    intro e he
    exact (List.getElem?_eq_some_iff.1 (h.sound.issued queue e he)).1
  have hsorted : (before ++ after).Pairwise (Before s.schedulingPolicy) := by
    rw [← hheld]
    exact h.sound.sorted queue
  have hsound : queued.pool.Sound := by
    have hparked : ∀ waiter ∈ s.waiters.listAt queue, waiter.accepts entry = false := by
      intro waiter hwaiter
      simpa using List.find?_eq_none.1 hfind waiter hwaiter
    have hadd : (s.pool.add queue before after entry.task).Sound := by
      refine h.sound.add hheld hfresh (fun e he => ?_) (fun e he => ?_) hparked
      · exact before_of_mem_take (hbefore e he) (htickets e (by simp [hheld, he]))
      · have hticket := htickets e (by simp [hheld, he])
        rw [hafter] at hsorted he
        exact before_of_mem_drop (List.pairwise_append.1 hsorted).2.1 he hticket
    have hpool : queued.pool = s.pool.add queue before after entry.task := by
      unfold TaskQueue.pool Pool.add
      rw [hheld' queued rfl rfl]
      rfl
    rw [hpool]
    exact hadd
  have hmem : ∀ other, ∀ e ∈ queued.held other,
      e ∈ s.held other ∨ other = queue ∧ e.operationId = task.operationId := by
    intro other e he
    rw [hheld' queued rfl rfl, Function.update_apply] at he
    split at he
    · rename_i hother
      subst hother
      rw [hheld]
      obtain hahead | hrest := List.mem_append.1 he
      · exact .inl (List.mem_append_left _ hahead)
      · obtain rfl | hlater := List.mem_cons.1 hrest
        · exact .inr ⟨rfl, rfl⟩
        · exact .inl (List.mem_append_right _ hlater)
    · exact .inl he
  obtain ⟨timers, hscheduled, htimers⟩ := scheduleExpiration_eq queued queue task.operationId
  rw [henqueued, hscheduled]
  refine ⟨{
    sound := hsound
    dispatched := by
      intro other e he
      obtain hold | ⟨-, hid⟩ := hmem other e he
      · exact Finset.mem_insert_of_mem (h.dispatched other e hold)
      · rw [hid]
        exact Finset.mem_insert_self _ _
    timers := by
      intro operationId timer htimer other e he heq
      obtain hold | ⟨rfl, hqueue⟩ := htimers operationId timer htimer
      · obtain hin | ⟨rfl, hid⟩ := hmem other e he
        · exact h.timers operationId timer hold other e hin heq
        · rw [← heq, hid] at hold
          exact (hnew (h.tracked _ timer hold)).elim
      · obtain hin | ⟨rfl, -⟩ := hmem other e he
        · exact (hfresh other e hin heq).elim
        · exact hqueue.symm
    tracked := by
      intro operationId timer htimer
      obtain hold | ⟨rfl, -⟩ := htimers operationId timer htimer
      · exact Finset.mem_insert_of_mem (h.tracked operationId timer hold)
      · exact Finset.mem_insert_self _ _
    scanned := by
      intro scan hscan other hother e he
      have hin := h.scanned scan hscan other hother e he
      change e ∈ ((s.pending.set queue _).listAt other).take scan.index
      rw [InsertionMap.listAt_set]
      split
      · rename_i heq
        subst heq
        have hindex := hbehind scan hscan hother
        rw [insertByPolicy_eq, List.take_append_of_le_length (by
          rw [List.length_take]
          have hlength := insertIndex_le (s.pending.listAt other) entry s.schedulingPolicy
          omega), List.take_take, Nat.min_eq_left hindex]
        exact hin
      · exact hin
    requests := h.requests }, rfl⟩

end enqueue

/-- An enqueue keeps the queue linked, and hands to the right poll if it hands. -/
theorem Linked.enqueue (h : Linked s) {task : PendingTask ι} {onComplete : Bool}
    (hundisturbed : Undisturbed s (.enqueue queue task onComplete))
    (hstep : taskQueue.step s (.enqueue queue task onComplete) =
      some (s.enqueue queue task onComplete)) :
    Linked (s.enqueue queue task onComplete) ∧
      HandsFirst s (.enqueue queue task onComplete) := by
  by_cases hnew : task.operationId ∈ s.dispatched
  · have hsame : s.enqueue queue task onComplete = s := by
      unfold TaskQueue.enqueue
      rw [if_pos hnew]
    rw [hsame] at hstep ⊢
    exact ⟨h, handsFirst_of_same hstep fun _ _ => history_ne_concat _ _⟩
  cases hfind : s.findWaiter queue (s.accept task onComplete).2 with
  | none =>
    have hbehind : ∀ scan ∈ s.scan, scan.current = some queue →
        scan.index ≤ insertIndex (s.pending.listAt queue) (s.accept task onComplete).2
          s.schedulingPolicy := by
      intro scan hscan hcurrent
      obtain hin | hwaiter | hindex := hundisturbed scan hscan hcurrent
      · exact (hnew hin).elim
      · have hnone : s.findWaiter queue ⟨s.issued.length, task⟩ = none := hfind
        rw [hnone] at hwaiter
        cases hwaiter
      · exact hindex
    obtain ⟨hlinked, hhistory⟩ := h.enqueue_queued hnew hfind hbehind
    refine ⟨hlinked, handsFirst_of_same hstep fun poll ticket heq => ?_⟩
    exact history_ne_concat _ _ (hhistory.symm.trans heq)
  | some waiter =>
    obtain ⟨hlinked, hhistory, hrequests, hissued⟩ := h.enqueue_handed hnew hfind
    refine ⟨hlinked, fun s' hs' poll ticket heq => ?_⟩
    cases hstep.symm.trans hs'
    obtain ⟨rfl, rfl⟩ : waiter.poll = poll ∧ s.issued.length = ticket := by
      have hlast := List.append_cancel_left (hhistory.symm.trans heq)
      simpa using hlast
    have hparked := List.mem_of_find?_eq_some hfind
    have haccepts : waiter.accepts (s.accept task onComplete).2 = true := by
      have hfound := List.find?_some hfind
      exact hfound
    refine ⟨queue, waiter.activities, ?_, (s.accept task onComplete).2, rfl, ?_, .inr rfl,
      haccepts, ?_⟩
    · rw [hrequests]
      exact h.requests queue waiter hparked
    · rw [hissued]
      exact List.getElem?_concat_length
    · intro other hother haccepted
      have hnot := h.sound.noneParked queue waiter hparked other hother
      unfold Waiter.accepts at hnot
      rw [haccepted] at hnot
      cases hnot

theorem scanNext_history (s : TaskQueue κ ι) (scan : Scan κ ι) (poll ticket : Nat) :
    (s.scanNext scan).history ≠ s.history ++ [.handed poll ticket] := by
  unfold TaskQueue.scanNext
  split
  · split <;> exact history_ne_concat _ _
  · split
    · exact history_ne_concat _ _
    · split
      · intro heq
        cases List.append_cancel_left heq
      · exact history_ne_concat _ _

/-- What one event does that does not disturb the queue. -/
theorem Linked.step (h : Linked s) {event : Event κ ι} (hundisturbed : Undisturbed s event)
    (hstep : taskQueue.step s event = some s') : Linked s' ∧ HandsFirst s event := by
  have hquiet : ∀ {t : TaskQueue κ ι}, taskQueue.step s event = some t → t.history = s.history →
      HandsFirst s event := by
    intro t ht hhistory
    exact handsFirst_of_same ht fun poll ticket heq =>
      history_ne_concat _ _ (hhistory.symm.trans heq)
  cases hscan : s.scan with
  | none =>
    cases event with
    | tick delay =>
      obtain rfl : { s with now := s.now + delay } = s' := by
        simpa only [taskQueue, Option.some.injEq] using hstep
      exact ⟨h.of_pool rfl rfl rfl h.scanned fun _ _ hrequest => hrequest, hquiet hstep rfl⟩
    | enqueue queue task onComplete =>
      obtain rfl : s.enqueue queue task onComplete = s' := by
        simpa only [taskQueue, hscan, Option.some.injEq] using hstep
      exact h.enqueue hundisturbed hstep
    | poll queue activities aborted =>
      obtain rfl : s.poll queue activities aborted = s' := by
        simpa only [taskQueue, hscan, Option.some.injEq] using hstep
      cases aborted with
      | true => exact ⟨h.requested (queue, activities), hquiet hstep rfl⟩
      | false =>
        cases hfind : (s.pending.listAt queue).find?
            (Waiter.accepts ⟨s.requests.length, activities⟩) with
        | some entry => exact h.poll_taken hscan hfind
        | none =>
          obtain ⟨hlinked, hhistory⟩ := h.poll_parked hscan hfind
          exact ⟨hlinked, hquiet hstep hhistory⟩
    | giveUp queue poll =>
      obtain rfl : s.dropWaiter queue poll = s' := by
        simpa only [taskQueue, hscan, Option.some.injEq] using hstep
      exact ⟨h.dropWaiter queue poll, hquiet hstep rfl⟩
    | complete operationId =>
      obtain rfl : s.complete operationId = s' := by
        simpa only [taskQueue, hscan, Option.some.injEq] using hstep
      refine ⟨h.complete hscan hundisturbed, handsFirst_of_same hstep fun poll ticket heq => ?_⟩
      cases List.append_cancel_left heq
    | expire operationId =>
      simp only [taskQueue, hscan, Option.bind_eq_some_iff] at hstep
      obtain ⟨timer, htimer, hexpired⟩ := hstep
      split at hexpired
      · rename_i hdue
        cases hexpired
        have hstep : taskQueue.step s (.expire operationId) =
            some (s.expireTask timer.1 operationId) := by
          simp only [taskQueue, hscan, htimer, Option.bind_some, if_pos hdue]
        refine ⟨h.expireTask hscan htimer, handsFirst_of_same hstep fun poll ticket heq => ?_⟩
        have hlast := List.append_cancel_left heq
        cases hfind : (s.pending.listAt timer.1).find?
            fun entry => decide (entry.operationId = operationId) with
        | none =>
          rw [hfind] at hlast
          cases hlast
        | some entry =>
          rw [hfind] at hlast
          cases hlast
      · cases hexpired
    | removeStale maxAge =>
      have hstarted := hstep
      simp only [taskQueue, hscan] at hstarted
      split at hstarted
      · cases hstarted
        exact ⟨h, hquiet hstep rfl⟩
      · cases hstarted
        refine ⟨h.moved ?_ ?_, hquiet hstep rfl⟩
        · rw [held_of_idle hscan]
          exact held_between rfl
        · rintro scan hbegun other hother
          cases hbegun
          cases hother
    | scanNext => simp only [taskQueue, hscan, reduceCtorEq] at hstep
    | callbackReturns => simp only [taskQueue, hscan, reduceCtorEq] at hstep
    | callbackThrows => exact hundisturbed.elim
  | some scan =>
    cases event with
    | tick delay =>
      obtain rfl : { s with now := s.now + delay } = s' := by
        simpa only [taskQueue, Option.some.injEq] using hstep
      exact ⟨h.of_pool rfl rfl rfl h.scanned fun _ _ hrequest => hrequest, hquiet hstep rfl⟩
    | enqueue queue task onComplete =>
      obtain rfl : s.enqueue queue task onComplete = s' := by
        simp only [taskQueue, hscan] at hstep
        split at hstep
        · exact Option.some.inj hstep
        · cases hstep
      exact h.enqueue hundisturbed hstep
    | scanNext =>
      obtain rfl : s.scanNext scan = s' := by
        simp only [taskQueue, hscan] at hstep
        split at hstep
        · cases hstep
        · exact Option.some.inj hstep
      exact ⟨h.scanNext hscan, handsFirst_of_same hstep (scanNext_history s scan)⟩
    | callbackReturns =>
      have hreturned := hstep
      simp only [taskQueue, hscan] at hreturned
      split at hreturned
      · cases hreturned
        refine ⟨h.moved ?_ ?_, hquiet hstep rfl⟩
        · funext queue
          rw [held_of_scan rfl, held_of_scan hscan]
        · rintro returned hin
          cases hin
          exact h.scanned scan hscan
      · cases hreturned
    | callbackThrows => exact hundisturbed.elim
    | _ => simp only [taskQueue, hscan, reduceCtorEq] at hstep

theorem linked_new (schedulingPolicy : SchedulingPolicy) (pendingTaskTimeToLive : Option Int) :
    Linked ({ schedulingPolicy, pendingTaskTimeToLive } : TaskQueue κ ι) where
  sound := {
    endedOnce := List.nodup_nil
    pendingOnce := fun _ => List.nodup_nil
    pendingApart := nofun
    accounted := nofun
    inOrder := List.Pairwise.nil
    noneParked := nofun
    issued := nofun
    live := nofun
    endedIssued := nofun
    notCompleted := nofun
    sorted := fun _ => List.Pairwise.nil }
  dispatched := nofun
  timers := nofun
  tracked := nofun
  scanned := nofun
  requests := nofun

/-- In every run whose events do not disturb the queue, it hands out as it promises in every state,
and every task that is handed out is the first one for its poll. -/
theorem tasks_handed_out (schedulingPolicy : SchedulingPolicy)
    (pendingTaskTimeToLive : Option Int) {events : List (Event κ ι)}
    (hundisturbed : taskQueue.EveryStep Undisturbed
      { schedulingPolicy, pendingTaskTimeToLive } events) :
    taskQueue.EveryState (fun s => s.pool.HandsOut)
        { schedulingPolicy, pendingTaskTimeToLive } events ∧
      taskQueue.EveryStep HandsFirst { schedulingPolicy, pendingTaskTimeToLive } events := by
  have hnew := linked_new (κ := κ) (ι := ι) schedulingPolicy pendingTaskTimeToLive
  constructor
  · have hlinked := Machine.everyState_of_invariant
      (fun s event s' (h : Linked s) hevent hstep => (h.step hevent hstep).1) hnew hundisturbed
    exact hlinked.mono fun s h => h.sound.handsOut
  · exact Machine.everyStep_of_invariant
      (fun s event s' (h : Linked s) hevent hstep => h.step hevent hstep) hnew hundisturbed

end steps

instance decidableUndisturbed (s : TaskQueue κ ι) :
    (event : Event κ ι) → Decidable (Undisturbed s event)
  | .complete operationId => inferInstanceAs (Decidable
      (∀ tasks ∈ s.pending.entries, ∀ entry ∈ tasks.2, entry.operationId ≠ operationId))
  | .enqueue queue task _ => inferInstanceAs (Decidable
      (∀ scan ∈ s.scan, scan.current = some queue →
        task.operationId ∈ s.dispatched ∨ (s.findWaiter queue ⟨s.issued.length, task⟩).isSome ∨
          scan.index ≤ insertIndex (s.pending.listAt queue) ⟨s.issued.length, task⟩
            s.schedulingPolicy))
  | .callbackThrows => isFalse id
  | .tick _ => isTrue trivial
  | .poll _ _ _ => isTrue trivial
  | .giveUp _ _ => isTrue trivial
  | .expire _ => isTrue trivial
  | .removeStale _ => isTrue trivial
  | .scanNext => isTrue trivial
  | .callbackReturns => isTrue trivial

/-- The first of two tasks is stale, and its callback enqueues a third one behind the scan. The
second task goes to a poll and is completed. -/
def staleThenHanded : List (Event Nat Nat) :=
  [.enqueue 0 ⟨1, "resize", none, none⟩ true, .tick 100,
    .enqueue 0 ⟨2, "resize", none, none⟩ false, .removeStale 50, .scanNext, .scanNext,
    .enqueue 0 ⟨3, "resize", none, none⟩ false, .callbackReturns, .scanNext, .scanNext, .scanNext,
    .scanNext, .poll 0 ["resize"] false, .complete 2]

theorem tasks_handed_out_stale :
    taskQueue.EveryState (fun s => s.pool.HandsOut)
        { schedulingPolicy := .fifo, pendingTaskTimeToLive := some 1000 } staleThenHanded ∧
      taskQueue.EveryStep HandsFirst
        { schedulingPolicy := .fifo, pendingTaskTimeToLive := some 1000 } staleThenHanded :=
  tasks_handed_out .fifo (some 1000) (by decide +kernel)

/-- A pending task is completed and then handed out. -/
theorem completed_task_handed_out :
    ¬ taskQueue.EveryState (fun s => s.pool.HandsOut)
      { schedulingPolicy := .fifo, pendingTaskTimeToLive := none }
      [.enqueue (0 : Nat) ⟨(1 : Nat), "resize", none, none⟩ false, .complete 1,
        .poll 0 ["resize"] false] := by
  intro h
  have horder : [Outcome.completed 1 1, .handed 0 0].Pairwise
      (InOrder [(⟨1, "resize", none, some 0⟩ : PendingTask Nat)]) := h.final.inOrder
  exact List.rel_of_pairwise_cons horder (List.mem_singleton_self _) Nat.zero_lt_one rfl

end Weft.Queue
