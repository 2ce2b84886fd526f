import Weft.Queue.Model

/-! What a task queue is for: tasks are held in the order of a policy until they are handed out or
dropped, and polls wait only where no task is held for them. -/

namespace Weft.Queue

open Weft.Lib

universe u v

variable {κ : Type u} {ι : Type v}

/-- The order in which the tasks of a queue are handed out. -/
def Before : SchedulingPolicy → Entry ι → Entry ι → Prop
  | .fifo, a, b => a.ticket < b.ticket
  | .lifo, a, b => b.ticket < a.ticket
  | .priority, a, b => b.priority < a.priority ∨ a.priority = b.priority ∧ a.ticket < b.ticket

/-- The ticket that an outcome ends. -/
def Outcome.ends : Outcome ι → Option Nat
  | .handed _ ticket => some ticket
  | .expired ticket => some ticket
  | .removed ticket => some ticket
  | .completed _ _ => none

def Outcome.handedTicket : Outcome ι → Option Nat
  | .handed _ ticket => some ticket
  | _ => none

/-- The outcome is of the ticket: it ends it, or its operation was completed. -/
def Outcome.Of (issued : List (PendingTask ι)) (ticket : Nat) : Outcome ι → Prop
  | .completed operationId tickets =>
    ticket < tickets ∧ (issued[ticket]?).map PendingTask.operationId = some operationId
  | outcome => outcome.ends = some ticket

/-- No ticket is handed out after its operation was completed. -/
def InOrder (issued : List (PendingTask ι)) (earlier later : Outcome ι) : Prop :=
  match earlier, later with
  | .completed operationId tickets, .handed _ ticket =>
    ticket < tickets → (issued[ticket]?).map PendingTask.operationId ≠ some operationId
  | _, _ => True

/-- The tasks that are held and the polls that wait, by queue. -/
structure Pool (κ : Type u) (ι : Type v) where
  policy : SchedulingPolicy
  held : κ → List (Entry ι)
  parked : κ → List Waiter
  issued : List (PendingTask ι)
  history : List (Outcome ι)

/-- What a task queue promises in every state. -/
structure Pool.HandsOut (p : Pool κ ι) : Prop where
  handedOnce : (p.history.filterMap Outcome.handedTicket).Nodup
  pendingOnce : ∀ queue, ((p.held queue).map Entry.operationId).Nodup
  pendingApart : ∀ queue queue', queue ≠ queue' → ∀ entry ∈ p.held queue, ∀ entry' ∈ p.held queue',
    entry.operationId ≠ entry'.operationId
  accounted : ∀ ticket < p.issued.length, (∃ queue, ∃ entry ∈ p.held queue, entry.ticket = ticket) ∨
    ∃ outcome ∈ p.history, outcome.Of p.issued ticket
  inOrder : p.history.Pairwise (InOrder p.issued)
  noneParked : ∀ queue, ∀ waiter ∈ p.parked queue, ∀ entry ∈ p.held queue,
    waiter.accepts entry = false

/-- What it keeps for that. -/
structure Pool.Sound (p : Pool κ ι) : Prop where
  endedOnce : (p.history.filterMap Outcome.ends).Nodup
  pendingOnce : ∀ queue, ((p.held queue).map Entry.operationId).Nodup
  pendingApart : ∀ queue queue', queue ≠ queue' → ∀ entry ∈ p.held queue, ∀ entry' ∈ p.held queue',
    entry.operationId ≠ entry'.operationId
  accounted : ∀ ticket < p.issued.length, (∃ queue, ∃ entry ∈ p.held queue, entry.ticket = ticket) ∨
    ∃ outcome ∈ p.history, outcome.Of p.issued ticket
  inOrder : p.history.Pairwise (InOrder p.issued)
  noneParked : ∀ queue, ∀ waiter ∈ p.parked queue, ∀ entry ∈ p.held queue,
    waiter.accepts entry = false
  issued : ∀ queue, ∀ entry ∈ p.held queue, p.issued[entry.ticket]? = some entry.task
  live : ∀ queue, ∀ entry ∈ p.held queue, entry.ticket ∉ p.history.filterMap Outcome.ends
  endedIssued : ∀ ticket ∈ p.history.filterMap Outcome.ends, ticket < p.issued.length
  /-- No held task was completed, nor is one counted before it is issued. -/
  notCompleted : ∀ operationId tickets, .completed operationId tickets ∈ p.history →
    tickets ≤ p.issued.length ∧ ∀ queue, ∀ entry ∈ p.held queue, entry.ticket < tickets →
      entry.operationId ≠ operationId
  sorted : ∀ queue, (p.held queue).Pairwise (Before p.policy)

/-- A ticket that is handed out is at its end. -/
theorem handed_sublist (history : List (Outcome ι)) :
    (history.filterMap Outcome.handedTicket).Sublist (history.filterMap Outcome.ends) := by
  induction history with
  | nil => exact .slnil
  | cons outcome history ih =>
    cases outcome with
    | handed poll ticket => exact ih.cons_cons ticket
    | expired ticket => exact ih.cons ticket
    | removed ticket => exact ih.cons ticket
    | completed operationId tickets => exact ih

namespace Pool

variable {p : Pool κ ι}

theorem Sound.handsOut (h : p.Sound) : p.HandsOut :=
  { h with handedOnce := h.endedOnce.sublist (handed_sublist p.history) }

section lookups

variable {issued : List (PendingTask ι)} {task : PendingTask ι} {ticket : Nat}

variable {outcome : Outcome ι}

/-- What is known of a ticket stays when another task is issued. -/
theorem of_append (h : outcome.Of issued ticket) : outcome.Of (issued ++ [task]) ticket := by
  cases outcome with
  | completed operationId tickets =>
    obtain ⟨hlt, hid⟩ := h
    refine ⟨hlt, ?_⟩
    obtain ⟨found, hfound, rfl⟩ := Option.map_eq_some_iff.1 hid
    rw [List.getElem?_append_left (List.getElem?_eq_some_iff.1 hfound).1, hfound]
    rfl
  | _ => exact h

theorem of_ends (h : outcome.ends = some ticket) : outcome.Of issued ticket := by
  cases outcome with
  | completed operationId tickets => cases h
  | _ => exact h

theorem inOrder_append {earlier later : Outcome ι}
    (hbound : ∀ operationId tickets, earlier = .completed operationId tickets →
      tickets ≤ issued.length)
    (h : InOrder issued earlier later) : InOrder (issued ++ [task]) earlier later := by
  cases earlier with
  | completed operationId tickets =>
    cases later with
    | handed poll ticket =>
      intro hlt
      rw [List.getElem?_append_left (hlt.trans_le (hbound operationId tickets rfl))]
      exact h hlt
    | _ => trivial
  | _ => trivial

end lookups

/-- The outcomes and the tickets of a pool stay in order when a task is issued. -/
theorem Sound.inOrder_issue (h : p.Sound) (task : PendingTask ι) :
    p.history.Pairwise (InOrder (p.issued ++ [task])) := by
  refine h.inOrder.imp_of_mem fun hearlier _ horder => inOrder_append ?_ horder
  rintro operationId tickets rfl
  exact (h.notCompleted operationId tickets hearlier).1

/-! ## What changes a pool -/

variable [DecidableEq κ]

/-- A held task leaves its queue with an outcome. -/
def drop (p : Pool κ ι) (queue : κ) (left : List (Entry ι)) (outcome : Outcome ι) : Pool κ ι :=
  { p with
    held := Function.update p.held queue left
    history := p.history ++ [outcome] }

variable {before after : List (Entry ι)}

theorem Sound.drop (h : p.Sound) {queue : κ} {entry : Entry ι}
    (hheld : p.held queue = before ++ entry :: after) {outcome : Outcome ι}
    (houtcome : outcome.ends = some entry.ticket) :
    (p.drop queue (before ++ after) outcome).Sound := by
  have hleft : (before ++ after).Sublist (p.held queue) := by
    rw [hheld]
    exact (List.Sublist.refl before).append (List.sublist_cons_self entry after)
  have hsub : ∀ other, (Function.update p.held queue (before ++ after) other).Sublist
      (p.held other) := by
    intro other
    by_cases hother : other = queue
    · subst hother
      rw [Function.update_self]
      exact hleft
    · rw [Function.update_of_ne hother]
  have hmem : entry ∈ p.held queue := by simp [hheld]
  have hends : (p.history ++ [outcome]).filterMap Outcome.ends =
      p.history.filterMap Outcome.ends ++ [entry.ticket] := by
    rw [List.filterMap_append]
    simp [houtcome]
  have hdistinct : entry ∉ before ++ after := by
    have hnodup := (h.pendingOnce queue).of_map
    rw [hheld] at hnodup
    exact (List.nodup_middle.1 hnodup).notMem
  have htickets : ∀ other, ∀ e ∈ Function.update p.held queue (before ++ after) other,
      e.ticket ≠ entry.ticket := by
    intro other e he heq
    have hethere := (hsub other).subset he
    have hsame : e.task = entry.task := by
      have hone := h.issued other e hethere
      rw [heq, h.issued queue entry hmem] at hone
      exact (Option.some.inj hone).symm
    have heqs : e = entry := by
      cases e
      cases entry
      simp_all
    subst heqs
    by_cases hother : other = queue
    · subst hother
      rw [Function.update_self] at he
      exact hdistinct he
    · exact h.pendingApart other queue hother e hethere e hmem rfl
  have hcompleted : ∀ operationId tickets, .completed operationId tickets ∈ p.history ++ [outcome] →
      .completed operationId tickets ∈ p.history := by
    intro operationId tickets hmem'
    obtain hold | hnew := List.mem_append.1 hmem'
    · exact hold
    · rw [← List.mem_singleton.1 hnew] at houtcome
      cases houtcome
  exact {
    endedOnce := by
      change ((p.history ++ [outcome]).filterMap Outcome.ends).Nodup
      rw [hends]
      refine List.nodup_append.2 ⟨h.endedOnce, List.nodup_singleton _, fun a ha b hb hab => ?_⟩
      rw [hab, List.mem_singleton.1 hb] at ha
      exact h.live queue entry hmem ha
    pendingOnce := fun other => (h.pendingOnce other).sublist ((hsub other).map _)
    pendingApart := fun a b hab e he e' he' =>
      h.pendingApart a b hab e ((hsub a).subset he) e' ((hsub b).subset he')
    accounted := by
      intro ticket hticket
      by_cases heq : ticket = entry.ticket
      · refine .inr ⟨outcome, List.mem_append_right _ (List.mem_singleton_self _), ?_⟩
        rw [heq]
        exact of_ends houtcome
      · obtain ⟨other, e, he, rfl⟩ | ⟨o, ho, hof⟩ := h.accounted ticket hticket
        · refine .inl ⟨other, e, ?_, rfl⟩
          change e ∈ Function.update p.held queue (before ++ after) other
          by_cases hother : other = queue
          · subst hother
            rw [Function.update_self]
            rw [hheld] at he
            have hne : e ≠ entry := fun h' => heq (congrArg Entry.ticket h')
            simpa [hne] using he
          · rwa [Function.update_of_ne hother]
        · exact .inr ⟨o, List.mem_append_left _ ho, hof⟩
    inOrder := by
      refine List.pairwise_append.2 ⟨h.inOrder, List.pairwise_singleton _ _, ?_⟩
      intro earlier hearlier later hlater
      rw [List.mem_singleton.1 hlater]
      cases earlier with
      | completed operationId tickets =>
        cases outcome with
        | handed poll ticket =>
          obtain rfl : ticket = entry.ticket := Option.some.inj houtcome
          intro hlt hid
          change (p.issued[entry.ticket]?).map PendingTask.operationId = some operationId at hid
          rw [h.issued queue entry hmem] at hid
          exact (h.notCompleted operationId tickets hearlier).2 queue entry hmem hlt
            (Option.some.inj hid)
        | _ => trivial
      | _ => trivial
    noneParked := fun other waiter hwaiter e he =>
      h.noneParked other waiter hwaiter e ((hsub other).subset he)
    issued := fun other e he => h.issued other e ((hsub other).subset he)
    live := by
      intro other e he hended
      change e.ticket ∈ (p.history ++ [outcome]).filterMap Outcome.ends at hended
      rw [hends] at hended
      obtain hold | hnew := List.mem_append.1 hended
      · exact h.live other e ((hsub other).subset he) hold
      · exact htickets other e he (List.mem_singleton.1 hnew)
    endedIssued := by
      intro ticket hended
      change ticket ∈ (p.history ++ [outcome]).filterMap Outcome.ends at hended
      rw [hends] at hended
      obtain hold | hnew := List.mem_append.1 hended
      · exact h.endedIssued ticket hold
      · rw [List.mem_singleton.1 hnew]
        exact (List.getElem?_eq_some_iff.1 (h.issued queue entry hmem)).1
    notCompleted := by
      intro operationId tickets hmem'
      obtain ⟨hbound, hapart⟩ := h.notCompleted operationId tickets (hcompleted _ _ hmem')
      exact ⟨hbound, fun other e he => hapart other e ((hsub other).subset he)⟩
    sorted := fun other => (h.sorted other).sublist (hsub other) }

/-- A new task comes between two parts of its queue. -/
def add (p : Pool κ ι) (queue : κ) (before after : List (Entry ι)) (task : PendingTask ι) :
    Pool κ ι := { p with
  held := Function.update p.held queue (before ++ ⟨p.issued.length, task⟩ :: after)
  issued := p.issued ++ [task] }

theorem Sound.add (h : p.Sound) {queue : κ} {task : PendingTask ι}
    (hheld : p.held queue = before ++ after)
    (hfresh : ∀ other, ∀ entry ∈ p.held other, entry.operationId ≠ task.operationId)
    (hbefore : ∀ entry ∈ before, Before p.policy entry ⟨p.issued.length, task⟩)
    (hafter : ∀ entry ∈ after, Before p.policy ⟨p.issued.length, task⟩ entry)
    (hparked : ∀ waiter ∈ p.parked queue, waiter.accepts (⟨p.issued.length, task⟩ : Entry ι) =
      false) :
    (p.add queue before after task).Sound := by
  set new : Entry ι := ⟨p.issued.length, task⟩ with hnew
  have hmem : ∀ other, ∀ e ∈ Function.update p.held queue (before ++ new :: after) other,
      e ∈ p.held other ∨ other = queue ∧ e = new := by
    intro other e he
    by_cases hother : other = queue
    · subst hother
      rw [Function.update_self] at he
      rw [hheld]
      simp only [List.mem_append, List.mem_cons] at he ⊢
      tauto
    · rw [Function.update_of_ne hother] at he
      exact .inl he
  have hkept : ∀ other, ∀ e ∈ p.held other,
      e ∈ Function.update p.held queue (before ++ new :: after) other := by
    intro other e he
    by_cases hother : other = queue
    · subst hother
      rw [Function.update_self]
      rw [hheld] at he
      simp only [List.mem_append, List.mem_cons] at he ⊢
      tauto
    · rwa [Function.update_of_ne hother]
  have hlast : (p.issued ++ [task])[p.issued.length]? = some task := List.getElem?_concat_length
  exact {
    endedOnce := h.endedOnce
    pendingOnce := by
      intro other
      change ((Function.update p.held queue (before ++ new :: after) other).map
        Entry.operationId).Nodup
      by_cases hother : other = queue
      · subst hother
        have hnodup := h.pendingOnce other
        rw [Function.update_self, List.map_append, List.map_cons, List.nodup_middle]
        rw [hheld, List.map_append] at hnodup
        refine List.nodup_cons.2 ⟨fun hin => ?_, hnodup⟩
        rw [← List.map_append, ← hheld] at hin
        obtain ⟨e, he, heq⟩ := List.mem_map.1 hin
        exact hfresh other e he heq
      · rw [Function.update_of_ne hother]
        exact h.pendingOnce other
    pendingApart := by
      intro a b hab e he e' he'
      obtain hold | ⟨rfl, rfl⟩ := hmem a e he
      · obtain hold' | ⟨rfl, rfl⟩ := hmem b e' he'
        · exact h.pendingApart a b hab e hold e' hold'
        · exact hfresh a e hold
      · obtain hold' | ⟨rfl, rfl⟩ := hmem b e' he'
        · exact (hfresh b e' hold').symm
        · exact (hab rfl).elim
    accounted := by
      intro ticket hticket
      change ticket < (p.issued ++ [task]).length at hticket
      rw [List.length_append, List.length_singleton] at hticket
      by_cases heq : ticket = p.issued.length
      · refine .inl ⟨queue, new, ?_, heq.symm⟩
        change new ∈ Function.update p.held queue (before ++ new :: after) queue
        simp
      · obtain ⟨other, e, he, rfl⟩ | ⟨o, ho, hof⟩ := h.accounted ticket (by omega)
        · exact .inl ⟨other, e, hkept other e he, rfl⟩
        · exact .inr ⟨o, ho, of_append hof⟩
    inOrder := h.inOrder_issue task
    noneParked := by
      intro other waiter hwaiter e he
      obtain hold | ⟨rfl, rfl⟩ := hmem other e he
      · exact h.noneParked other waiter hwaiter e hold
      · exact hparked waiter hwaiter
    issued := by
      intro other e he
      obtain hold | ⟨rfl, rfl⟩ := hmem other e he
      · have hget := h.issued other e hold
        exact (List.getElem?_append_left (List.getElem?_eq_some_iff.1 hget).1).trans hget
      · exact hlast
    live := by
      intro other e he hended
      obtain hold | ⟨rfl, rfl⟩ := hmem other e he
      · exact h.live other e hold hended
      · exact (h.endedIssued _ hended).false
    endedIssued := by
      intro ticket hended
      change ticket < (p.issued ++ [task]).length
      rw [List.length_append]
      exact (h.endedIssued ticket hended).trans_le (Nat.le_add_right _ _)
    notCompleted := by
      intro operationId tickets hcompleted
      obtain ⟨hbound, hapart⟩ := h.notCompleted operationId tickets hcompleted
      refine ⟨?_, fun other e he hlt => ?_⟩
      · change tickets ≤ (p.issued ++ [task]).length
        rw [List.length_append]
        exact hbound.trans (Nat.le_add_right _ _)
      · obtain hold | ⟨rfl, rfl⟩ := hmem other e he
        · exact hapart other e hold hlt
        · exact (hlt.not_ge hbound).elim
    sorted := by
      intro other
      change (Function.update p.held queue (before ++ new :: after) other).Pairwise
        (Before p.policy)
      by_cases hother : other = queue
      · subst hother
        have hsorted := h.sorted other
        rw [hheld] at hsorted
        obtain ⟨hb, ha, hba⟩ := List.pairwise_append.1 hsorted
        rw [Function.update_self]
        refine List.pairwise_append.2 ⟨hb, List.pairwise_cons.2 ⟨hafter, ha⟩, ?_⟩
        intro a hina b hinb
        obtain rfl | hinb := List.mem_cons.1 hinb
        · exact hbefore a hina
        · exact hba a hina b hinb
      · rw [Function.update_of_ne hother]
        exact h.sorted other }

/-- A new task goes to a parked poll at once. -/
def hand (p : Pool κ ι) (parked : κ → List Waiter) (poll : Nat) (task : PendingTask ι) : Pool κ ι :=
  { p with
    parked
    issued := p.issued ++ [task]
    history := p.history ++ [.handed poll p.issued.length] }

variable {parked : κ → List Waiter}

omit [DecidableEq κ] in
theorem Sound.hand (h : p.Sound) (poll : Nat) (task : PendingTask ι)
    (hparked : ∀ queue, ∀ waiter ∈ parked queue, waiter ∈ p.parked queue) :
    (p.hand parked poll task).Sound := by
  have hends : (p.history ++ [Outcome.handed poll p.issued.length]).filterMap
      Outcome.ends = p.history.filterMap Outcome.ends ++ [p.issued.length] := by
    rw [List.filterMap_append]
    rfl
  have hcompleted : ∀ operationId tickets,
      .completed operationId tickets ∈ p.history ++ [.handed poll p.issued.length] →
      .completed operationId tickets ∈ p.history := by
    intro operationId tickets hmem
    obtain hold | hnew := List.mem_append.1 hmem
    · exact hold
    · cases List.mem_singleton.1 hnew
  exact {
    endedOnce := by
      change ((p.history ++ [Outcome.handed poll p.issued.length]).filterMap Outcome.ends).Nodup
      rw [hends]
      refine List.nodup_append.2 ⟨h.endedOnce, List.nodup_singleton _, fun a ha b hb hab => ?_⟩
      rw [hab, List.mem_singleton.1 hb] at ha
      exact (h.endedIssued _ ha).false
    pendingOnce := h.pendingOnce
    pendingApart := h.pendingApart
    accounted := by
      intro ticket hticket
      change ticket < (p.issued ++ [task]).length at hticket
      rw [List.length_append, List.length_singleton] at hticket
      by_cases heq : ticket = p.issued.length
      · refine .inr ⟨_, List.mem_append_right _ (List.mem_singleton_self _), ?_⟩
        rw [heq]
        rfl
      · obtain hheld | ⟨o, ho, hof⟩ := h.accounted ticket (by omega)
        · exact .inl hheld
        · exact .inr ⟨o, List.mem_append_left _ ho, of_append hof⟩
    inOrder := by
      refine List.pairwise_append.2 ⟨h.inOrder_issue task, List.pairwise_singleton _ _, ?_⟩
      intro earlier hearlier later hlater
      rw [List.mem_singleton.1 hlater]
      cases earlier with
      | completed operationId tickets =>
        intro hlt
        exact (hlt.not_ge (h.notCompleted operationId tickets hearlier).1).elim
      | _ => trivial
    noneParked := fun queue waiter hwaiter =>
      h.noneParked queue waiter (hparked queue waiter hwaiter)
    issued := by
      intro queue e he
      have hget := h.issued queue e he
      exact (List.getElem?_append_left (List.getElem?_eq_some_iff.1 hget).1).trans hget
    live := by
      intro queue e he hended
      change e.ticket ∈ (p.history ++ [_]).filterMap Outcome.ends at hended
      rw [hends] at hended
      obtain hold | hnew := List.mem_append.1 hended
      · exact h.live queue e he hold
      · have hlt := (List.getElem?_eq_some_iff.1 (h.issued queue e he)).1
        rw [List.mem_singleton.1 hnew] at hlt
        exact hlt.false
    endedIssued := by
      intro ticket hended
      change ticket ∈ (p.history ++ [_]).filterMap Outcome.ends at hended
      change ticket < (p.issued ++ [task]).length
      rw [hends] at hended
      rw [List.length_append, List.length_singleton]
      obtain hold | hnew := List.mem_append.1 hended
      · exact (h.endedIssued ticket hold).trans (Nat.lt_succ_self _)
      · rw [List.mem_singleton.1 hnew]
        exact Nat.lt_succ_self _
    notCompleted := by
      intro operationId tickets hmem
      obtain ⟨hbound, hapart⟩ := h.notCompleted operationId tickets (hcompleted _ _ hmem)
      refine ⟨?_, hapart⟩
      change tickets ≤ (p.issued ++ [task]).length
      rw [List.length_append]
      exact hbound.trans (Nat.le_add_right _ _)
    sorted := h.sorted }

/-- Polls park or give up. -/
def wait (p : Pool κ ι) (parked : κ → List Waiter) : Pool κ ι := { p with parked }

omit [DecidableEq κ] in
theorem Sound.wait (h : p.Sound)
    (hparked : ∀ queue, ∀ waiter ∈ parked queue, ∀ entry ∈ p.held queue,
      waiter.accepts entry = false) :
    (p.wait parked).Sound :=
  { h with noneParked := hparked }

/-- An operation is completed. -/
def complete (p : Pool κ ι) (operationId : ι) : Pool κ ι :=
  { p with history := p.history ++ [.completed operationId p.issued.length] }

omit [DecidableEq κ] in
theorem Sound.complete (h : p.Sound) {operationId : ι}
    (habsent : ∀ queue, ∀ entry ∈ p.held queue, entry.operationId ≠ operationId) :
    (p.complete operationId).Sound := by
  have hends : (p.history ++ [Outcome.completed operationId p.issued.length]).filterMap
      Outcome.ends = p.history.filterMap Outcome.ends := by
    rw [List.filterMap_append]
    exact List.append_nil _
  exact {
    endedOnce := hends ▸ h.endedOnce
    pendingOnce := h.pendingOnce
    pendingApart := h.pendingApart
    accounted := by
      intro ticket hticket
      obtain hheld | ⟨o, ho, hof⟩ := h.accounted ticket hticket
      · exact .inl hheld
      · exact .inr ⟨o, List.mem_append_left _ ho, hof⟩
    inOrder := by
      refine List.pairwise_append.2 ⟨h.inOrder, List.pairwise_singleton _ _, ?_⟩
      intro earlier _ later hlater
      rw [List.mem_singleton.1 hlater]
      cases earlier <;> trivial
    noneParked := h.noneParked
    issued := h.issued
    live := fun queue e he => hends ▸ h.live queue e he
    endedIssued := fun ticket hended => h.endedIssued ticket (hends ▸ hended)
    notCompleted := by
      intro id tickets hmem
      obtain hold | hnew := List.mem_append.1 hmem
      · exact h.notCompleted id tickets hold
      · cases List.mem_singleton.1 hnew
        exact ⟨le_rfl, fun queue e he _ => habsent queue e he⟩
    sorted := h.sorted }

end Pool

end Weft.Queue
