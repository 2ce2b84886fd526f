import Weft.Signals.Waiting

/-! Which signals wake a wait. Where different workflows and names have different waiter keys and a
wait is the only one of its workflow and name, no signal is left behind for a wait that is at rest,
and a delivery wakes only its own. -/

namespace Weft.Signals.Wakeup
open Weft.Lib

/-- No other wait of the same workflow and name has a waiter or a marker. -/
def Alone (w : World) (place : Nat) (x : Wait) : Prop :=
  ∀ other < w.waits.length, other ≠ place → ∀ y ∈ w.waits[other]?, y.pair = x.pair →
    y.listening = false ∧ y.isParked = false

instance Alone.decidable (w : World) (place : Nat) (x : Wait) : Decidable (Alone w place x) := by
  unfold Alone
  infer_instance

/-- The waits and deliveries are those of `pairs`; a wait that registers or parks is the only one of
its workflow and name; and a resume that fails leaves no matching signal behind. -/
def Orderly (pairs : List (String × String)) (w : World) : Event → Prop
  | .wait workflowId signalName _ _ => (workflowId, signalName) ∈ pairs
  | .bufferSignalPayloads workflowId signalNames =>
      ∀ signalName ∈ signalNames, (workflowId, signalName) ∈ pairs
  | .advance place ok => ∀ x ∈ w.waits[place]?,
      (x.phase = .checking ∨ x.phase = .publishing → Alone w place x) ∧
      (x.phase = .resuming ∧ ok = false → Alone w place x ∧ x.pair ∉ w.buffer)
  | _ => True

instance Orderly.decidable (pairs : List (String × String)) (w : World) (event : Event) :
    Decidable (Orderly pairs w event) :=
  match event with
  | .wait workflowId signalName _ _ =>
      inferInstanceAs (Decidable ((workflowId, signalName) ∈ pairs))
  | .bufferSignalPayloads workflowId signalNames =>
    inferInstanceAs (Decidable (∀ signalName ∈ signalNames, (workflowId, signalName) ∈ pairs))
  | .advance place ok => inferInstanceAs (Decidable (∀ x ∈ w.waits[place]?,
      (x.phase = .checking ∨ x.phase = .publishing → Alone w place x) ∧
      (x.phase = .resuming ∧ ok = false → Alone w place x ∧ x.pair ∉ w.buffer)))
  | .abort _ => isTrue trivial
  | .deliverBufferedSignals _ => isTrue trivial
  | .consume _ _ => isTrue trivial
  | .resume _ => isTrue trivial
  | .terminate _ => isTrue trivial

/-- Different workflows and names have different waiter keys. -/
def KeysApart (pairs : List (String × String)) : Prop :=
  ∀ p ∈ pairs, ∀ q ∈ pairs, waiterKey p.1 p.2 = waiterKey q.1 q.2 → p = q

instance KeysApart.decidable (pairs : List (String × String)) : Decidable (KeysApart pairs) := by
  unfold KeysApart
  infer_instance

/-- The wait relies on a delivery to go on. -/
def Wait.relies (x : Wait) : Bool :=
  (x.phase = .awaiting ∧ x.woken = false) ∨ x.phase = .parked

structure Inv (pairs : List (String × String)) (w : World) : Prop where
  owned : ∀ key place, w.signalWaiters key = some place →
    ∃ x, w.waits[place]? = some x ∧ x.listening = true ∧ x.key = key
  listening : ∀ (place : Nat) (x : Wait), w.waits[place]? = some x → x.listening = true →
    w.signalWaiters x.key = some place
  parked : ∀ x ∈ w.waits, x.isParked = true →
    x.workflowId ∈ w.parkedInlineWorkflows ∧ w.signalWaiters x.key = none
  covered : ∀ x ∈ w.waits, x.relies = true → x.pair ∈ w.buffer →
    ∃ delivery ∈ w.deliveries, delivery.workflowId = x.workflowId ∧
      x.signalName ∈ delivery.signalNames
  waits : ∀ x ∈ w.waits, x.pair ∈ pairs
  deliveries : ∀ delivery ∈ w.deliveries, ∀ signalName ∈ delivery.signalNames,
    (delivery.workflowId, signalName) ∈ pairs

section wakeWaiters

variable (workflowId : String)

/-- The keys of the signals have no waiter any more. -/
theorem wakeWaiters_waiters (signalNames : List String) (signalWaiters : String → Option Nat)
    (waits : List Wait) (key : String) :
    (wakeWaiters workflowId signalWaiters waits signalNames).1 key =
      if key ∈ signalNames.map (waiterKey workflowId) then none else signalWaiters key := by
  induction signalNames generalizing signalWaiters waits with
  | nil => simp [wakeWaiters]
  | cons signalName signalNames ih =>
    rw [wakeWaiters]
    split
    · rw [ih]
      by_cases heq : key = waiterKey workflowId signalName
      · simp [heq]
      · simp [heq]
    · rename_i hnone
      rw [ih]
      by_cases heq : key = waiterKey workflowId signalName
      · simp [heq, hnone]
      · simp [heq]

/-- The waits that are called are those with a waiter under one of the keys. -/
theorem wakeWaiters_waits (signalNames : List String) (signalWaiters : String → Option Nat)
    (waits : List Wait) (place : Nat) :
    (wakeWaiters workflowId signalWaiters waits signalNames).2.1[place]? =
      (waits[place]?).map fun x =>
        if ∃ signalName ∈ signalNames,
          signalWaiters (waiterKey workflowId signalName) = some place then x.wake else x := by
  induction signalNames generalizing signalWaiters waits with
  | nil => simp [wakeWaiters]
  | cons signalName signalNames ih =>
    rw [wakeWaiters]
    split
    · rename_i other hother
      rw [ih, List.getElem?_modify, Option.map_eq_map, Option.map_map]
      congr 1
      funext x
      have hiff : (∃ name ∈ signalNames, Function.update signalWaiters
          (waiterKey workflowId signalName) none (waiterKey workflowId name) = some place) ∨
          other = place ↔ ∃ name ∈ signalName :: signalNames,
            signalWaiters (waiterKey workflowId name) = some place := by
        constructor
        · rintro (⟨name, hname, hsome⟩ | rfl)
          · by_cases heq : waiterKey workflowId name = waiterKey workflowId signalName
            · rw [heq, Function.update_self] at hsome
              cases hsome
            · rw [Function.update_of_ne heq] at hsome
              exact ⟨name, List.mem_cons_of_mem _ hname, hsome⟩
          · exact ⟨signalName, List.mem_cons_self, hother⟩
        · rintro ⟨name, hname, hsome⟩
          by_cases heq : waiterKey workflowId name = waiterKey workflowId signalName
          · rw [heq, hother] at hsome
            exact .inr (Option.some.inj hsome)
          · left
            obtain rfl | hname := List.mem_cons.1 hname
            · exact absurd rfl heq
            · refine ⟨name, hname, ?_⟩
              rw [Function.update_of_ne heq]
              exact hsome
      by_cases hleft : ∃ name ∈ signalNames, Function.update signalWaiters
          (waiterKey workflowId signalName) none (waiterKey workflowId name) = some place
      · rw [if_pos (hiff.1 (.inl hleft))]
        simp only [Function.comp, if_pos hleft]
        split <;> rfl
      · by_cases heq : other = place
        · rw [if_pos (hiff.1 (.inr heq))]
          simp only [Function.comp, if_neg hleft, if_pos heq]
        · rw [if_neg fun hex => (hiff.2 hex).elim hleft heq]
          simp only [Function.comp, if_neg hleft, if_neg heq]
    · rename_i hnone
      rw [ih]
      congr 1
      funext x
      refine if_congr ?_ rfl rfl
      constructor
      · rintro ⟨name, hname, hsome⟩
        exact ⟨name, List.mem_cons_of_mem _ hname, hsome⟩
      · rintro ⟨name, hname, hsome⟩
        obtain rfl | hname := List.mem_cons.1 hname
        · rw [hnone] at hsome
          cases hsome
        · exact ⟨name, hname, hsome⟩

/-- A signal without a waiter is noticed. -/
theorem wakeWaiters_missed {signalNames : List String} {signalWaiters : String → Option Nat}
    {waits : List Wait} {signalName : String} (hname : signalName ∈ signalNames)
    (hnone : signalWaiters (waiterKey workflowId signalName) = none) :
    (wakeWaiters workflowId signalWaiters waits signalNames).2.2 = true := by
  induction signalNames generalizing signalWaiters waits with
  | nil => cases hname
  | cons first signalNames ih =>
    rw [wakeWaiters]
    split
    · rename_i other hother
      obtain rfl | hname := List.mem_cons.1 hname
      · rw [hnone] at hother
        cases hother
      · apply ih hname
        by_cases heq : waiterKey workflowId signalName = waiterKey workflowId first
        · rw [heq, Function.update_self]
        · rw [Function.update_of_ne heq]
          exact hnone
    · rfl

end wakeWaiters

namespace Inv

variable {pairs : List (String × String)} {w : World}

theorem noLostWakeup (h : Inv pairs w) : NoLostWakeup w := by
  rintro ⟨hnone, hphase⟩ x hx hopen hin
  have hrelies : x.relies = true := by
    obtain hdone | hparked | hawaiting := hphase x hx
    · exact absurd hdone hopen
    · simp [Wait.relies, hparked]
    · simp [Wait.relies, hawaiting]
  obtain ⟨delivery, hdelivery, -⟩ := h.covered x hx hrelies hin
  rw [hnone] at hdelivery
  cases hdelivery

variable {place : Nat} {x : Wait}

/-- One wait goes on, and the waiters of the others stay. -/
theorem update (h : Inv pairs w) {w' : World} (hx : w.waits[place]? = some x) (x' : Wait)
    (hpair : x'.pair = x.pair) (hwaits : w'.waits = w.waits.set place x')
    (hbuffer : w'.buffer = w.buffer) (hdeliveries : w'.deliveries = w.deliveries)
    (hparked : ∀ workflowId ∈ w.parkedInlineWorkflows, workflowId ∈ w'.parkedInlineWorkflows)
    (howned : ∀ key other, w'.signalWaiters key = some other →
      (other = place ∧ x'.listening = true ∧ x'.key = key) ∨ (other ≠ place ∧
      w.signalWaiters key = some other))
    (hkept : ∀ key other, other ≠ place → w.signalWaiters key = some other →
      w'.signalWaiters key = some other)
    (hlistening : x'.listening = true → w'.signalWaiters x'.key = some place)
    (hmarked : x'.isParked = true → x'.workflowId ∈ w'.parkedInlineWorkflows ∧
      w'.signalWaiters x'.key = none)
    (hothers : ∀ other y, other ≠ place → w.waits[other]? = some y → y.isParked = true →
      w'.signalWaiters y.key = none)
    (hcovered : x'.relies = true → x'.pair ∈ w.buffer →
      ∃ delivery ∈ w.deliveries, delivery.workflowId = x'.workflowId ∧
      x'.signalName ∈ delivery.signalNames) :
    Inv pairs w' := by
  have hlt : place < w.waits.length := (List.getElem?_eq_some_iff.1 hx).1
  have hself : w'.waits[place]? = some x' := by
    rw [hwaits, List.getElem?_set_self hlt]
  have hother : ∀ other, other ≠ place → w'.waits[other]? = w.waits[other]? := by
    intro other hne
    rw [hwaits, List.getElem?_set_ne hne.symm]
  have hsplit : ∀ y ∈ w'.waits, y = x' ∨ ∃ other, other ≠ place ∧ w.waits[other]? = some y := by
    intro y hy
    obtain ⟨other, hget⟩ := List.getElem?_of_mem hy
    by_cases heq : other = place
    · subst heq
      rw [hself] at hget
      exact .inl (Option.some.inj hget).symm
    · rw [hother other heq] at hget
      exact .inr ⟨other, heq, hget⟩
  constructor
  · intro key other hkey
    obtain ⟨rfl, hlist, hk⟩ | ⟨hne, hold⟩ := howned key other hkey
    · exact ⟨x', hself, hlist, hk⟩
    · obtain ⟨y, hy, hrest⟩ := h.owned key other hold
      exact ⟨y, (hother other hne).trans hy, hrest⟩
  · intro other y hy hlist
    by_cases heq : other = place
    · subst heq
      rw [hself] at hy
      cases hy
      exact hlistening hlist
    · rw [hother other heq] at hy
      exact hkept _ other heq (h.listening other y hy hlist)
  · intro y hy hmark
    obtain rfl | ⟨other, hne, hget⟩ := hsplit y hy
    · exact hmarked hmark
    · exact ⟨hparked _ (h.parked y (List.mem_of_getElem? hget) hmark).1,
        hothers other y hne hget hmark⟩
  · intro y hy hrelies hin
    rw [hbuffer] at hin
    rw [hdeliveries]
    obtain rfl | ⟨other, -, hget⟩ := hsplit y hy
    · exact hcovered hrelies hin
    · exact h.covered y (List.mem_of_getElem? hget) hrelies hin
  · intro y hy
    obtain rfl | ⟨other, -, hget⟩ := hsplit y hy
    · rw [hpair]
      exact h.waits x (List.mem_of_getElem? hx)
    · exact h.waits y (List.mem_of_getElem? hget)
  · rw [hdeliveries]
    exact h.deliveries

/-- The wait had no waiter and gets none. -/
theorem moveOn (h : Inv pairs w) (hx : w.waits[place]? = some x) (x' : Wait)
    (hpair : x'.pair = x.pair) (hsilent : x.listening = false) (hquiet : x'.listening = false)
    {parkedInlineWorkflows : List String}
    (hparked : ∀ workflowId ∈ w.parkedInlineWorkflows, workflowId ∈ parkedInlineWorkflows)
    (hmarked : x'.isParked = true →
      x'.workflowId ∈ parkedInlineWorkflows ∧ w.signalWaiters x'.key = none)
    (hcovered : x'.relies = true → x'.pair ∈ w.buffer →
      ∃ delivery ∈ w.deliveries, delivery.workflowId = x'.workflowId ∧
      x'.signalName ∈ delivery.signalNames) :
    Inv pairs { w with
      parkedInlineWorkflows := parkedInlineWorkflows
      waits := w.waits.set place x' } := by
  refine h.update hx x' hpair rfl rfl rfl hparked ?_ (fun _ _ _ hold => hold) ?_ hmarked ?_ hcovered
  · intro key other hkey
    right
    refine ⟨?_, hkey⟩
    rintro rfl
    obtain ⟨y, hy, hlist, -⟩ := h.owned key other hkey
    rw [hx] at hy
    cases hy
    rw [hsilent] at hlist
    cases hlist
  · intro hlist
    rw [hquiet] at hlist
    cases hlist
  · intro other y _ hy hmark
    exact (h.parked y (List.mem_of_getElem? hy) hmark).2

/-- With no other wait of its workflow and name, the key of a wait without a waiter is free. -/
theorem key_free (h : Inv pairs w) (hkeys : KeysApart pairs) (hx : w.waits[place]? = some x)
    (hsilent : x.listening = false) (halone : Alone w place x) : w.signalWaiters x.key = none := by
  cases howner : w.signalWaiters x.key with
  | none => rfl
  | some other =>
    exfalso
    obtain ⟨y, hy, hlist, hkey⟩ := h.owned x.key other howner
    have hsame : y.pair = x.pair :=
      hkeys _ (h.waits y (List.mem_of_getElem? hy)) _ (h.waits x (List.mem_of_getElem? hx)) hkey
    have hne : other ≠ place := by
      rintro rfl
      rw [hx] at hy
      cases hy
      rw [hsilent] at hlist
      cases hlist
    have hfree := (halone other (List.getElem?_eq_some_iff.1 hy).1 hne y hy hsame).1
    rw [hfree] at hlist
    cases hlist

/-- A waiter is registered under a free key. -/
theorem registerWaiter (h : Inv pairs w) (hkeys : KeysApart pairs) (hx : w.waits[place]? = some x)
    (hphase : x.phase = .checking) (halone : Alone w place x) : Inv pairs { w with
      signalWaiters := Function.update w.signalWaiters x.key (some place)
      waits := w.waits.set place { x with phase := .registered, woken := false } } := by
  have hsilent : x.listening = false := by simp [Wait.listening, hphase]
  have hfree := h.key_free hkeys hx hsilent halone
  refine h.update hx { x with phase := .registered, woken := false } rfl rfl rfl rfl
    (fun _ hin => hin) ?_ ?_ ?_ ?_ ?_ ?_
  · intro key other hkey
    by_cases heq : key = x.key
    · subst heq
      change Function.update w.signalWaiters x.key (some place) x.key = _ at hkey
      rw [Function.update_self] at hkey
      cases hkey
      exact .inl ⟨rfl, rfl, rfl⟩
    · change Function.update w.signalWaiters x.key (some place) key = _ at hkey
      rw [Function.update_of_ne heq] at hkey
      refine .inr ⟨?_, hkey⟩
      rintro rfl
      obtain ⟨y, hy, hlist, -⟩ := h.owned key other hkey
      rw [hx] at hy
      cases hy
      rw [hsilent] at hlist
      cases hlist
  · intro key other _ hold
    have hne : key ≠ x.key := by
      rintro rfl
      rw [hfree] at hold
      cases hold
    show Function.update w.signalWaiters x.key (some place) key = some other
    rw [Function.update_of_ne hne]
    exact hold
  · intro _
    exact Function.update_self _ _ _
  · intro hmark
    simp [Wait.isParked] at hmark
  · intro other y hne hy hmark
    have hkey : y.key ≠ x.key := by
      intro hsame
      have hpair : y.pair = x.pair :=
        hkeys _ (h.waits y (List.mem_of_getElem? hy)) _ (h.waits x (List.mem_of_getElem? hx)) hsame
      have := (halone other (List.getElem?_eq_some_iff.1 hy).1 hne y hy hpair).2
      rw [this] at hmark
      cases hmark
    show Function.update w.signalWaiters x.key (some place) y.key = none
    rw [Function.update_of_ne hkey]
    exact (h.parked y (List.mem_of_getElem? hy) hmark).2
  · intro hrelies
    simp [Wait.relies] at hrelies

/-- A wait is over, and its own waiter is released. -/
theorem endWait (h : Inv pairs w) (hx : w.waits[place]? = some x) : Inv pairs (releaseSignalWaiter
      { w with waits := w.waits.set place { x with phase := .done } } x.key place) := by
  have hkey : ∀ key, w.signalWaiters key = some place → key = x.key := by
    intro key hkey
    obtain ⟨y, hy, -, heq⟩ := h.owned key place hkey
    rw [hx] at hy
    cases hy
    exact heq.symm
  have hsub : ∀ key other, (releaseSignalWaiter
      { w with waits := w.waits.set place { x with phase := .done } } x.key place).signalWaiters
        key = some other ↔ other ≠ place ∧ w.signalWaiters key = some other := by
    intro key other
    rw [releaseSignalWaiter]
    split
    · rename_i hown
      change w.signalWaiters x.key = some place at hown
      show Function.update w.signalWaiters x.key none key = some other ↔ _
      by_cases heq : key = x.key
      · subst heq
        rw [Function.update_self, hown]
        simp [eq_comm]
      · rw [Function.update_of_ne heq]
        refine ⟨fun hold => ⟨?_, hold⟩, And.right⟩
        rintro rfl
        exact heq (hkey key hold)
    · rename_i hown
      refine ⟨fun hold => ⟨?_, hold⟩, And.right⟩
      rintro rfl
      apply hown
      show w.signalWaiters x.key = some other
      rw [← hkey key hold]
      exact hold
  have hnone : ∀ key, w.signalWaiters key = none → (releaseSignalWaiter
      { w with waits := w.waits.set place { x with phase := .done } } x.key place).signalWaiters
        key = none := by
    intro key hnone
    apply Option.eq_none_iff_forall_ne_some.2
    intro other hother
    have := ((hsub key other).1 hother).2
    rw [hnone] at this
    cases this
  have hfields : ∀ (v : World), (releaseSignalWaiter v x.key place).waits = v.waits ∧
      (releaseSignalWaiter v x.key place).buffer = v.buffer ∧
      (releaseSignalWaiter v x.key place).deliveries = v.deliveries ∧
      (releaseSignalWaiter v x.key place).parkedInlineWorkflows = v.parkedInlineWorkflows := by
    intro v
    rw [releaseSignalWaiter]
    split <;> exact ⟨rfl, rfl, rfl, rfl⟩
  obtain ⟨hwaits, hbuffer, hdeliveries, hparked⟩ :=
    hfields { w with waits := w.waits.set place { x with phase := .done } }
  refine h.update hx { x with phase := .done } rfl hwaits hbuffer hdeliveries
    (by rw [hparked]; exact fun _ hin => hin) ?_ ?_ ?_ ?_ ?_ ?_
  · intro key other hother
    exact .inr ((hsub key other).1 hother)
  · intro key other hne hold
    exact (hsub key other).2 ⟨hne, hold⟩
  · intro hlist
    simp [Wait.listening] at hlist
  · intro hmark
    simp [Wait.isParked] at hmark
  · intro other y _ hy hmark
    exact hnone _ (h.parked y (List.mem_of_getElem? hy) hmark).2
  · intro hrelies
    simp [Wait.relies] at hrelies

theorem isParked_resumed (workflowId : String) (x : Wait) :
    (x.resumed workflowId).isParked = true →
      x.resumed workflowId = x ∧ x.workflowId ≠ workflowId := by
  intro hmark
  by_cases hcase : x.workflowId = workflowId ∧ x.isParked
  · rw [Wait.resumed, if_pos hcase] at hmark
    simp [Wait.isParked] at hmark
  · rw [Wait.resumed, if_neg hcase] at hmark
    rw [Wait.resumed, if_neg hcase]
    exact ⟨rfl, fun heq => hcase ⟨heq, hmark⟩⟩

theorem listening_resumed (workflowId : String) (x : Wait) :
    (x.resumed workflowId).listening = x.listening := by
  by_cases hcase : x.workflowId = workflowId ∧ x.isParked
  · rw [Wait.resumed, if_pos hcase]
    obtain ⟨-, hmark⟩ := hcase
    simp only [Wait.isParked, decide_eq_true_eq] at hmark
    obtain hphase | hphase := hmark
    all_goals simp [Wait.listening, hphase]
  · rw [Wait.resumed, if_neg hcase]

theorem relies_resumed (workflowId : String) (x : Wait) :
    (x.resumed workflowId).relies = true → x.resumed workflowId = x := by
  intro hrelies
  by_cases hcase : x.workflowId = workflowId ∧ x.isParked
  · rw [Wait.resumed, if_pos hcase] at hrelies
    simp [Wait.relies] at hrelies
  · rw [Wait.resumed, if_neg hcase]

@[simp] theorem pair_resumed (workflowId : String) (x : Wait) :
    (x.resumed workflowId).pair = x.pair := by
  rw [Wait.resumed]
  split <;> rfl

@[simp] theorem key_resumed (workflowId : String) (x : Wait) :
    (x.resumed workflowId).key = x.key := by
  rw [Wait.resumed]
  split <;> rfl

/-- The parked waits of a workflow go on. -/
theorem resume (h : Inv pairs w) (workflowId : String) :
    Inv pairs (resumeParkedInlineWorkflow w workflowId) := by
  rw [resumeParkedInlineWorkflow]
  split
  · constructor
    · intro key place hkey
      obtain ⟨x, hx, hlist, heq⟩ := h.owned key place hkey
      refine ⟨x.resumed workflowId, ?_, ?_, ?_⟩
      · rw [List.getElem?_map, hx, Option.map_some]
      · rw [listening_resumed]
        exact hlist
      · rw [key_resumed]
        exact heq
    · intro place x' hx' hlist
      rw [List.getElem?_map] at hx'
      obtain ⟨x, hx, rfl⟩ := Option.map_eq_some_iff.1 hx'
      rw [listening_resumed] at hlist
      rw [key_resumed]
      exact h.listening place x hx hlist
    · intro x' hx' hmark
      obtain ⟨x, hx, rfl⟩ := List.mem_map.1 hx'
      obtain ⟨hsame, hne⟩ := isParked_resumed workflowId x hmark
      rw [hsame] at hmark ⊢
      obtain ⟨hin, hfree⟩ := h.parked x hx hmark
      exact ⟨List.mem_filter.2 ⟨hin, by simpa using hne⟩, hfree⟩
    · intro x' hx' hrelies hin
      obtain ⟨x, hx, rfl⟩ := List.mem_map.1 hx'
      have hsame := relies_resumed workflowId x hrelies
      rw [hsame] at hrelies hin ⊢
      exact h.covered x hx hrelies hin
    · intro x' hx'
      obtain ⟨x, hx, rfl⟩ := List.mem_map.1 hx'
      rw [pair_resumed]
      exact h.waits x hx
    · exact h.deliveries
  · exact h

theorem advance (h : Inv pairs w) (hkeys : KeysApart pairs) {ok : Bool}
    (hx : w.waits[place]? = some x) (hok : Orderly pairs w (.advance place ok)) {w' : World}
    (hstep : advance w place x ok = some w') : Inv pairs w' := by
  obtain ⟨halone, hresume⟩ := hok x hx
  have hmove : ∀ phase, phase ≠ .published → phase ≠ .parked → phase ≠ .registered →
      phase ≠ .awaiting → x.listening = false →
      Inv pairs { w with waits := w.waits.set place { x with phase := phase } } := by
    intro phase h1 h2 h3 h4 hsilent
    refine h.moveOn hx { x with phase := phase } rfl hsilent ?_ (fun _ hin => hin) ?_ ?_
    · simp [Wait.listening, h3, h4]
    · intro hmark
      simp [Wait.isParked, h1, h2] at hmark
    · intro hrelies
      simp [Wait.relies, h4, h2] at hrelies
  rw [Wakeup.advance] at hstep
  cases hphase : x.phase with
  | peeking =>
    have hsilent : x.listening = false := by simp [Wait.listening, hphase]
    rw [hphase] at hstep
    simp only at hstep
    split at hstep
    all_goals
      cases hstep
      apply hmove <;> simp [hsilent]
  | publishing =>
    have hsilent : x.listening = false := by simp [Wait.listening, hphase]
    rw [hphase] at hstep
    cases ok with
    | true =>
      cases hstep
      have hfree := h.key_free hkeys hx hsilent (halone (.inr hphase))
      refine h.moveOn hx { x with phase := .published } rfl hsilent rfl
        (fun _ hin => List.mem_cons_of_mem _ hin) (fun _ => ⟨List.mem_cons_self, hfree⟩) ?_
      intro hrelies
      simp [Wait.relies] at hrelies
    | false =>
      cases hstep
      apply hmove <;> simp [hsilent]
  | published =>
    have hsilent : x.listening = false := by simp [Wait.listening, hphase]
    rw [hphase] at hstep
    simp only at hstep
    split at hstep
    · cases hstep
      exact h.resume x.workflowId
    · rename_i hnone
      cases hstep
      refine h.moveOn hx { x with phase := .parked } rfl hsilent rfl (fun _ hin => hin) ?_ ?_
      · intro _
        exact h.parked x (List.mem_of_getElem? hx) (by simp [Wait.isParked, hphase])
      · intro _ hin
        exact absurd hin hnone
  | parked =>
    rw [hphase] at hstep
    cases hstep
  | resuming =>
    have hsilent : x.listening = false := by simp [Wait.listening, hphase]
    rw [hphase] at hstep
    cases ok with
    | true =>
      cases hstep
      apply hmove <;> simp [hsilent]
    | false =>
      cases hstep
      obtain ⟨halone, hnone⟩ := hresume ⟨hphase, rfl⟩
      have hfree := h.key_free hkeys hx hsilent halone
      refine h.moveOn hx { x with phase := .parked } rfl hsilent rfl
        (fun _ hin => List.mem_cons_of_mem _ hin) (fun _ => ⟨List.mem_cons_self, hfree⟩) ?_
      intro _ hin
      exact absurd hin hnone
  | checking =>
    have hsilent : x.listening = false := by simp [Wait.listening, hphase]
    rw [hphase] at hstep
    simp only at hstep
    split at hstep
    · cases hstep
      apply hmove <;> simp [hsilent]
    · cases hstep
      exact h.registerWaiter hkeys hx hphase (halone (.inl hphase))
  | registered =>
    rw [hphase] at hstep
    simp only at hstep
    split at hstep
    · cases hstep
      exact h.endWait hx
    · rename_i hnone
      cases hstep
      have hsame : Wait.listening { x with phase := .awaiting } = x.listening := by
        simp [Wait.listening, hphase]
      have howner : ∀ key, w.signalWaiters key = some place → x.listening = true ∧ x.key = key := by
        intro key hkey
        obtain ⟨y, hy, hlist, heq⟩ := h.owned key place hkey
        rw [hx] at hy
        cases hy
        exact ⟨hlist, heq⟩
      refine h.update hx { x with phase := .awaiting } rfl rfl rfl rfl (fun _ hin => hin) ?_
        (fun _ _ _ hold => hold) ?_ ?_ ?_ ?_
      · intro key other hkey
        by_cases heq : other = place
        · subst heq
          obtain ⟨hlist, hk⟩ := howner key hkey
          exact .inl ⟨rfl, hsame.trans hlist, hk⟩
        · exact .inr ⟨heq, hkey⟩
      · intro hlist
        exact h.listening place x hx (hsame.symm.trans hlist)
      · intro hmark
        simp [Wait.isParked] at hmark
      · intro other y _ hy hmark
        exact (h.parked y (List.mem_of_getElem? hy) hmark).2
      · intro _ hin
        exact absurd hin hnone
  | awaiting =>
    rw [hphase] at hstep
    simp only at hstep
    split at hstep
    · rename_i hwoken
      have hsilent : x.listening = false := by simp [Wait.listening, hwoken]
      split at hstep
      all_goals
        cases hstep
        apply hmove <;> simp [hsilent]
    · cases hstep
  | done =>
    rw [hphase] at hstep
    cases hstep

/-- What a delivery makes of the wait in a place. -/
def delivered (w : World) (delivery : Delivery) (place : Nat) (x : Wait) : Wait :=
  let woken := if ∃ signalName ∈ delivery.signalNames,
    w.signalWaiters (waiterKey delivery.workflowId signalName) = some place then x.wake else x
  if (wakeWaiters delivery.workflowId w.signalWaiters w.waits delivery.signalNames).2.2 = true ∧
      delivery.workflowId ∈ w.parkedInlineWorkflows then woken.resumed delivery.workflowId
  else woken

theorem deliver_waits (w : World) (delivery : Delivery) (place : Nat) :
    (deliverBufferedSignals w delivery).waits[place]? =
      (w.waits[place]?).map (delivered w delivery place) := by
  have hwaits := wakeWaiters_waits delivery.workflowId delivery.signalNames w.signalWaiters w.waits
    place
  unfold deliverBufferedSignals
  by_cases hmissed :
      (wakeWaiters delivery.workflowId w.signalWaiters w.waits delivery.signalNames).2.2 = true
  · simp only [if_pos hmissed, resumeParkedInlineWorkflow]
    by_cases hparked : delivery.workflowId ∈ w.parkedInlineWorkflows
    · simp only [if_pos hparked, List.getElem?_map, hwaits, Option.map_map]
      congr 1
      funext x
      simp only [delivered, hmissed, hparked, and_self, if_true, Function.comp]
    · simp only [if_neg hparked, hwaits]
      congr 1
      funext x
      simp only [delivered, hparked, and_false, if_false]
  · simp only [if_neg hmissed, hwaits]
    congr 1
    funext x
    have hnot : ¬ ((wakeWaiters delivery.workflowId w.signalWaiters w.waits
        delivery.signalNames).2.2 = true ∧ delivery.workflowId ∈ w.parkedInlineWorkflows) :=
      fun hboth => hmissed hboth.1
    simp only [delivered, if_neg hnot]

theorem deliver_waiters (w : World) (delivery : Delivery) (key : String) :
    (deliverBufferedSignals w delivery).signalWaiters key =
      if key ∈ delivery.signalNames.map (waiterKey delivery.workflowId) then none
      else w.signalWaiters key := by
  rw [← wakeWaiters_waiters delivery.workflowId delivery.signalNames w.signalWaiters w.waits key]
  unfold deliverBufferedSignals
  simp only
  split
  · rw [resumeParkedInlineWorkflow]
    split <;> rfl
  · rfl

theorem deliver_rest (w : World) (delivery : Delivery) :
    (deliverBufferedSignals w delivery).buffer = w.buffer ∧
      (deliverBufferedSignals w delivery).deliveries = w.deliveries := by
  unfold deliverBufferedSignals
  simp only
  split
  · rw [resumeParkedInlineWorkflow]
    split <;> exact ⟨rfl, rfl⟩
  · exact ⟨rfl, rfl⟩

variable {delivery : Delivery}

/-- The marker of a workflow stays where its waits are not resumed. -/
theorem deliver_parked (hin : x.workflowId ∈ w.parkedInlineWorkflows)
    (hmark : (delivered w delivery place x).isParked = true) :
    x.workflowId ∈ (deliverBufferedSignals w delivery).parkedInlineWorkflows := by
  unfold deliverBufferedSignals
  simp only
  by_cases hmissed :
      (wakeWaiters delivery.workflowId w.signalWaiters w.waits delivery.signalNames).2.2 = true
  · rw [if_pos hmissed, resumeParkedInlineWorkflow]
    by_cases hparked : delivery.workflowId ∈ w.parkedInlineWorkflows
    · rw [if_pos hparked]
      simp only [delivered, hmissed, hparked, and_self, if_true] at hmark
      obtain ⟨-, hne⟩ := isParked_resumed _ _ hmark
      have hsame : ∀ woken : Prop, ∀ _ : Decidable woken,
          (if woken then x.wake else x).workflowId = x.workflowId := by
        intro woken _
        split <;> rfl
      rw [hsame] at hne
      exact List.mem_filter.2 ⟨hin, by simpa using hne⟩
    · rw [if_neg hparked]
      exact hin
  · rw [if_neg hmissed]
    exact hin

theorem listening_delivered (hlist : (delivered w delivery place x).listening = true) :
    x.listening = true ∧ ¬ ∃ signalName ∈ delivery.signalNames,
      w.signalWaiters (waiterKey delivery.workflowId signalName) = some place := by
  by_cases hwoken : ∃ signalName ∈ delivery.signalNames,
      w.signalWaiters (waiterKey delivery.workflowId signalName) = some place
  · exfalso
    simp only [delivered, if_pos hwoken] at hlist
    split at hlist
    · rw [listening_resumed] at hlist
      simp [Wait.listening, Wait.wake] at hlist
    · simp [Wait.listening, Wait.wake] at hlist
  · refine ⟨?_, hwoken⟩
    simp only [delivered, if_neg hwoken] at hlist
    split at hlist
    · rw [listening_resumed] at hlist
      exact hlist
    · exact hlist

theorem listening_of_silent
    (hsilent : ¬ ∃ signalName ∈ delivery.signalNames,
      w.signalWaiters (waiterKey delivery.workflowId signalName) = some place) :
    (delivered w delivery place x).listening = x.listening := by
  simp only [delivered, if_neg hsilent]
  split
  · exact listening_resumed _ _
  · rfl

theorem pair_delivered (w : World) (delivery : Delivery) (place : Nat) (x : Wait) :
    (delivered w delivery place x).pair = x.pair := by
  simp only [delivered]
  split
  · rw [pair_resumed]
    split <;> rfl
  · split <;> rfl

theorem key_delivered (w : World) (delivery : Delivery) (place : Nat) (x : Wait) :
    (delivered w delivery place x).key = x.key := by
  have hpair := pair_delivered w delivery place x
  simp only [Wait.pair, Prod.mk.injEq] at hpair
  rw [Wait.key, Wait.key, hpair.1, hpair.2]

theorem isParked_delivered (hmark : (delivered w delivery place x).isParked = true) :
    x.isParked = true := by
  have hwake : ∀ y : Wait, y.wake.isParked = y.isParked := fun _ => rfl
  simp only [delivered] at hmark
  split at hmark
  · obtain ⟨hsame, -⟩ := isParked_resumed _ _ hmark
    rw [hsame] at hmark
    split at hmark
    · exact hmark
    · exact hmark
  · split at hmark
    · exact hmark
    · exact hmark

/-- A wait that still relies on a delivery was not reached by this one. -/
theorem relies_delivered (h : Inv pairs w) (hx : w.waits[place]? = some x)
    (hrelies : (delivered w delivery place x).relies = true) : x.relies = true ∧
      (delivery.workflowId = x.workflowId → x.signalName ∉ delivery.signalNames) := by
  by_cases hwoken : ∃ signalName ∈ delivery.signalNames,
      w.signalWaiters (waiterKey delivery.workflowId signalName) = some place
  · -- a wait with a waiter is not parked, and this one is called
    exfalso
    simp only [delivered, if_pos hwoken] at hrelies
    obtain ⟨signalName, -, howner⟩ := hwoken
    obtain ⟨y, hy, hlist, -⟩ := h.owned _ place howner
    rw [hx] at hy
    cases hy
    have hphase : x.phase ≠ .parked := by
      intro hphase
      simp [Wait.listening, hphase] at hlist
    have hnot : x.wake.relies = false := by simp [Wait.relies, Wait.wake, hphase]
    split at hrelies
    · rw [relies_resumed _ _ hrelies, hnot] at hrelies
      cases hrelies
    · rw [hnot] at hrelies
      cases hrelies
  · simp only [delivered, if_neg hwoken] at hrelies
    have hold : x.relies = true := by
      split at hrelies
      · have hsame := relies_resumed _ _ hrelies
        rw [hsame] at hrelies
        exact hrelies
      · exact hrelies
    refine ⟨hold, ?_⟩
    intro heq hname
    by_cases hphase : x.phase = .parked
    · have hmark : x.isParked = true := by simp [Wait.isParked, hphase]
      obtain ⟨hin, hfree⟩ := h.parked x (List.mem_of_getElem? hx) hmark
      rw [Wait.key, ← heq] at hfree
      rw [if_pos ⟨wakeWaiters_missed _ hname hfree, heq ▸ hin⟩, Wait.resumed,
        if_pos ⟨heq.symm, hmark⟩] at hrelies
      simp [Wait.relies] at hrelies
    · apply hwoken
      refine ⟨x.signalName, hname, ?_⟩
      rw [heq]
      apply h.listening place x hx
      simp only [Wait.relies, decide_eq_true_eq, hphase, or_false] at hold
      simp [Wait.listening, hold]

theorem deliver (h : Inv pairs w) (hdelivery : w.deliveries[place]? = some delivery) :
    Inv pairs (deliverBufferedSignals { w with deliveries := w.deliveries.eraseIdx place }
      delivery) := by
  have hwaits := deliver_waits { w with deliveries := w.deliveries.eraseIdx place } delivery
  have hwaiters := deliver_waiters { w with deliveries := w.deliveries.eraseIdx place } delivery
  obtain ⟨hbuffer, hdeliveries⟩ :=
    deliver_rest { w with deliveries := w.deliveries.eraseIdx place } delivery
  have hget : ∀ (i : Nat) (x' : Wait), (deliverBufferedSignals
      { w with deliveries := w.deliveries.eraseIdx place } delivery).waits[i]? = some x' →
      ∃ x, w.waits[i]? = some x ∧ x' = delivered w delivery i x := by
    intro i x' hx'
    rw [hwaits] at hx'
    obtain ⟨x, hx, heq⟩ := Option.map_eq_some_iff.1 hx'
    exact ⟨x, hx, heq.symm⟩
  constructor
  · intro key i hkey
    rw [hwaiters] at hkey
    split at hkey
    · cases hkey
    · rename_i hnot
      obtain ⟨x, hx, hlist, heq⟩ := h.owned key i hkey
      refine ⟨delivered w delivery i x, ?_, ?_, ?_⟩
      · rw [hwaits]
        exact congrArg (Option.map _) hx
      · rw [listening_of_silent]
        · exact hlist
        · rintro ⟨signalName, hname, howner⟩
          obtain ⟨y, hy, -, hkey'⟩ := h.owned _ i howner
          rw [hx] at hy
          cases hy
          apply hnot
          rw [← heq, hkey']
          exact List.mem_map_of_mem hname
      · rw [key_delivered]
        exact heq
  · intro i x' hx' hlist
    obtain ⟨x, hx, rfl⟩ := hget i x' hx'
    obtain ⟨hold, hsilent⟩ := listening_delivered hlist
    have howner := h.listening i x hx hold
    rw [key_delivered, hwaiters]
    split
    · rename_i hin
      exfalso
      obtain ⟨signalName, hname, heq⟩ := List.mem_map.1 hin
      exact hsilent ⟨signalName, hname, by rw [heq]; exact howner⟩
    · exact howner
  · intro x' hmem hmark
    obtain ⟨i, hi⟩ := List.getElem?_of_mem hmem
    obtain ⟨x, hx, rfl⟩ := hget i x' hi
    obtain ⟨hin, hfree⟩ := h.parked x (List.mem_of_getElem? hx) (isParked_delivered hmark)
    have hpair := pair_delivered w delivery i x
    simp only [Wait.pair, Prod.mk.injEq] at hpair
    constructor
    · rw [hpair.1]
      exact deliver_parked hin hmark
    · rw [key_delivered, hwaiters]
      split
      · rfl
      · exact hfree
  · intro x' hmem hrelies hin
    obtain ⟨i, hi⟩ := List.getElem?_of_mem hmem
    obtain ⟨x, hx, rfl⟩ := hget i x' hi
    obtain ⟨hold, hmissed⟩ := h.relies_delivered hx hrelies
    rw [pair_delivered, hbuffer] at hin
    have hpair := pair_delivered w delivery i x
    simp only [Wait.pair, Prod.mk.injEq] at hpair
    obtain ⟨other, hother, heq, hname⟩ := h.covered x (List.mem_of_getElem? hx) hold hin
    rw [hpair.1, hpair.2, hdeliveries]
    refine ⟨other, ?_, heq, hname⟩
    obtain ⟨j, hj⟩ := List.getElem?_of_mem hother
    refine List.mem_eraseIdx_iff_getElem?.2 ⟨j, ?_, hj⟩
    rintro rfl
    rw [hdelivery] at hj
    cases hj
    exact hmissed heq hname
  · intro x' hmem
    obtain ⟨i, hi⟩ := List.getElem?_of_mem hmem
    obtain ⟨x, hx, rfl⟩ := hget i x' hi
    rw [pair_delivered]
    exact h.waits x (List.mem_of_getElem? hx)
  · rw [hdeliveries]
    intro other hother
    exact h.deliveries other (List.mem_of_mem_eraseIdx hother)

theorem terminate (h : Inv pairs w) (workflowId : String) :
    Inv pairs (terminate w workflowId) := by
  have hget : ∀ (i : Nat) (x' : Wait), (Wakeup.terminate w workflowId).waits[i]? = some x' →
      x'.phase = .done ∧ x'.pair ∈ pairs ∨ w.waits[i]? = some x' ∧ x'.workflowId ≠ workflowId := by
    intro i x' hx'
    rw [show (Wakeup.terminate w workflowId).waits = w.waits.map fun x =>
      if x.workflowId = workflowId then { x with phase := .done } else x from rfl,
      List.getElem?_map] at hx'
    obtain ⟨x, hx, heq⟩ := Option.map_eq_some_iff.1 hx'
    split at heq
    · subst heq
      exact .inl ⟨rfl, h.waits x (List.mem_of_getElem? hx)⟩
    · rename_i hne
      subst heq
      exact .inr ⟨hx, hne⟩
  constructor
  · intro key place hkey
    simp only [Wakeup.terminate] at hkey
    split at hkey
    · cases hkey
    · rename_i hnone
      obtain ⟨x, hx, hlist, heq⟩ := h.owned key place hkey
      have hne : x.workflowId ≠ workflowId := fun hsame =>
        hnone ⟨x, List.mem_of_getElem? hx, hsame, hlist, heq⟩
      refine ⟨x, ?_, hlist, heq⟩
      rw [show (Wakeup.terminate w workflowId).waits = w.waits.map fun x =>
        if x.workflowId = workflowId then { x with phase := .done } else x from rfl,
        List.getElem?_map, hx, Option.map_some, if_neg hne]
  · intro place x hx hlist
    obtain ⟨hdone, -⟩ | ⟨hold, hne⟩ := hget place x hx
    · simp [Wait.listening, hdone] at hlist
    · have howner := h.listening place x hold hlist
      simp only [Wakeup.terminate]
      split
      · rename_i hex
        obtain ⟨y, hy, hsame, hlist', hkey⟩ := hex
        exfalso
        obtain ⟨j, hj⟩ := List.getElem?_of_mem hy
        have hother := h.listening j y hj hlist'
        rw [hkey, howner, Option.some.injEq] at hother
        subst hother
        rw [hold] at hj
        cases hj
        exact hne hsame
      · exact howner
  · intro x hx hmark
    obtain ⟨i, hi⟩ := List.getElem?_of_mem hx
    obtain ⟨hdone, -⟩ | ⟨hold, hne⟩ := hget i x hi
    · simp [Wait.isParked, hdone] at hmark
    · obtain ⟨hin, hfree⟩ := h.parked x (List.mem_of_getElem? hold) hmark
      refine ⟨List.mem_filter.2 ⟨hin, by simpa using hne⟩, ?_⟩
      simp only [Wakeup.terminate]
      split
      · rfl
      · exact hfree
  · intro x hx hrelies hin
    obtain ⟨i, hi⟩ := List.getElem?_of_mem hx
    obtain ⟨hdone, -⟩ | ⟨hold, -⟩ := hget i x hi
    · simp [Wait.relies, hdone] at hrelies
    · exact h.covered x (List.mem_of_getElem? hold) hrelies hin
  · intro x hx
    obtain ⟨i, hi⟩ := List.getElem?_of_mem hx
    obtain ⟨-, hin⟩ | ⟨hold, -⟩ := hget i x hi
    · exact hin
    · exact h.waits x (List.mem_of_getElem? hold)
  · exact h.deliveries

/-- A wait begins, with neither waiter nor marker. -/
theorem wait (h : Inv pairs w) (hin : x.pair ∈ pairs) (hlist : x.listening = false)
    (hmark : x.isParked = false) (hrelies : x.relies = false) :
    Inv pairs { w with waits := w.waits ++ [x] } := by
  have hsplit : ∀ y ∈ w.waits ++ [x], y = x ∨ y ∈ w.waits := by
    intro y hy
    obtain hold | hnew := List.mem_append.1 hy
    · exact .inr hold
    · exact .inl (List.mem_singleton.1 hnew)
  constructor
  · intro key place hkey
    obtain ⟨y, hy, hrest⟩ := h.owned key place hkey
    refine ⟨y, ?_, hrest⟩
    rw [List.getElem?_append_left (List.getElem?_eq_some_iff.1 hy).1]
    exact hy
  · intro place y hy hlist'
    rw [List.getElem?_append] at hy
    split at hy
    · exact h.listening place y hy hlist'
    · rw [List.getElem?_singleton] at hy
      split at hy
      · cases hy
        rw [hlist] at hlist'
        cases hlist'
      · cases hy
  · intro y hy hmark'
    obtain rfl | hold := hsplit y hy
    · rw [hmark] at hmark'
      cases hmark'
    · exact h.parked y hold hmark'
  · intro y hy hrelies'
    obtain rfl | hold := hsplit y hy
    · rw [hrelies] at hrelies'
      cases hrelies'
    · exact h.covered y hold hrelies'
  · intro y hy
    obtain rfl | hold := hsplit y hy
    · exact hin
    · exact h.waits y hold
  · exact h.deliveries

theorem buffer (h : Inv pairs w) {workflowId : String} {signalNames : List String}
    (hin : ∀ signalName ∈ signalNames, (workflowId, signalName) ∈ pairs) :
    Inv pairs { w with
      buffer := w.buffer ++ signalNames.map fun signalName => (workflowId, signalName)
      deliveries := w.deliveries ++ [⟨workflowId, signalNames⟩] } := { h with
  covered := by
    intro x hx hrelies hmem
    obtain hold | hnew := List.mem_append.1 hmem
    · obtain ⟨delivery, hdelivery, hrest⟩ := h.covered x hx hrelies hold
      exact ⟨delivery, List.mem_append_left _ hdelivery, hrest⟩
    · obtain ⟨signalName, hname, heq⟩ := List.mem_map.1 hnew
      obtain ⟨hworkflow, hsignal⟩ := Prod.mk.inj heq
      refine ⟨_, List.mem_append_right _ (List.mem_singleton_self _), hworkflow, ?_⟩
      rw [← hsignal]
      exact hname
  deliveries := by
    intro delivery hdelivery
    obtain hold | hnew := List.mem_append.1 hdelivery
    · exact h.deliveries delivery hold
    · rw [List.mem_singleton] at hnew
      subst hnew
      exact hin }

theorem consume (h : Inv pairs w) (pair : String × String) :
    Inv pairs { w with buffer := w.buffer.erase pair } := { h with
  covered := fun x hx hrelies hin => h.covered x hx hrelies (List.mem_of_mem_erase hin) }

theorem step (hkeys : KeysApart pairs) (h : Inv pairs w) {event : Event} {w' : World}
    (hok : Orderly pairs w event) (hstep : wakeupMachine.step w event = some w') :
    Inv pairs w' := by
  cases event with
  | wait workflowId signalName branch parks =>
    cases hstep
    apply h.wait (show Wait.pair ⟨workflowId, signalName, branch, _, false⟩ ∈ pairs from hok)
    all_goals cases parks <;> rfl
  | advance place ok =>
    obtain ⟨x, hx, hadvance⟩ := Option.bind_eq_some_iff.1 hstep
    exact h.advance hkeys hx hok hadvance
  | abort place =>
    obtain ⟨x, hx, habort⟩ := Option.bind_eq_some_iff.1 hstep
    cases habort
    exact h.endWait hx
  | bufferSignalPayloads workflowId signalNames =>
    cases hstep
    exact h.buffer hok
  | deliverBufferedSignals place =>
    obtain ⟨delivery, hdelivery, hdeliver⟩ := Option.bind_eq_some_iff.1 hstep
    cases hdeliver
    exact h.deliver hdelivery
  | consume workflowId signalName =>
    cases hstep
    exact h.consume _
  | resume workflowId =>
    cases hstep
    exact h.resume workflowId
  | terminate workflowId =>
    cases hstep
    exact h.terminate workflowId

theorem wakesOwn (hkeys : KeysApart pairs) (h : Inv pairs w) (event : Event) :
    WakesOwn w event := by
  rintro place delivery w' rfl hdelivery hstep i x x' hx hx' hne
  obtain ⟨delivery', hsame, hdeliver⟩ := Option.bind_eq_some_iff.1 hstep
  rw [hdelivery] at hsame
  cases hsame
  cases hdeliver
  rw [deliver_waits] at hx'
  obtain ⟨y, hy, heq⟩ := Option.map_eq_some_iff.1 hx'
  rw [show w.waits[i]? = some x from hx] at hy
  cases hy
  by_cases hwoken : ∃ signalName ∈ delivery.signalNames,
      w.signalWaiters (waiterKey delivery.workflowId signalName) = some i
  · obtain ⟨signalName, hname, howner⟩ := hwoken
    obtain ⟨y, hy, -, hkey⟩ := h.owned _ i howner
    rw [hx] at hy
    cases hy
    have hpair : x.pair = (delivery.workflowId, signalName) :=
      hkeys _ (h.waits x (List.mem_of_getElem? hx)) _
        (h.deliveries delivery (List.mem_of_getElem? hdelivery) signalName hname) hkey
    obtain ⟨hworkflow, hsignal⟩ := Prod.mk.inj hpair
    exact ⟨hworkflow, .inr (hsignal ▸ hname)⟩
  · simp only [delivered, if_neg hwoken] at heq
    split at heq
    · rw [Wait.resumed] at heq
      split at heq
      · rename_i hcase
        exact ⟨hcase.1, .inl hcase.2⟩
      · exact absurd heq.symm hne
    · exact absurd heq.symm hne

theorem initial : Inv pairs {} where
  owned := fun key place hkey => (by cases hkey)
  listening := fun place x hx => (by simp at hx)
  parked := fun x hx => (by cases hx)
  covered := fun x hx => (by cases hx)
  waits := fun x hx => (by cases hx)
  deliveries := fun delivery hdelivery => (by cases hdelivery)

end Inv

/-- In every run whose steps are orderly over pairs with different keys. -/
theorem no_lost_wakeup {pairs : List (String × String)} (hkeys : KeysApart pairs)
    {run : List Event} (hok : wakeupMachine.EveryStep (Orderly pairs) {} run) :
    wakeupMachine.EveryState NoLostWakeup {} run ∧ wakeupMachine.EveryStep WakesOwn {} run := by
  constructor
  · apply Machine.EveryState.mono fun w (h : Inv pairs w) => h.noLostWakeup
    exact Machine.everyState_of_invariant (fun _ _ _ h => h.step hkeys) Inv.initial hok
  · apply Machine.everyStep_of_invariant (I := Inv pairs) _ Inv.initial hok
    exact fun w event w' h hoks hstep => ⟨h.step hkeys hoks hstep, h.wakesOwn hkeys event⟩

/-- Workflow `a:b` waits for `c` and workflow `a` for `b:c`; then `c` is sent to `a:b`. -/
def sameKey : List Event :=
  [.wait "a:b" "c" false false, .advance 0 true, .advance 0 true, .wait "a" "b:c" false false,
    .advance 1 true, .advance 1 true, .bufferSignalPayloads "a:b" ["c"],
    .deliverBufferedSignals 0, .advance 1 true, .advance 1 true, .advance 1 true]

/-- The waiter of the other workflow is called, and the signal stays with its wait. -/
theorem wakeup_lost : ¬ (wakeupMachine.EveryState NoLostWakeup {} sameKey ∧
    wakeupMachine.EveryStep WakesOwn {} sameKey) := by
  intro h
  have hlost := h.1.final
  have hquiet : Quiescent (wakeupMachine.final {} sameKey) := by
    unfold Quiescent
    decide
  have hin := hlost hquiet ⟨"a:b", "c", false, .awaiting, false⟩ (by decide)
    (by decide)
  revert hin
  decide

/-- A wait, a parked workflow and a branch of another name, with deliveries between their checks. -/
def ownKeys : List Event :=
  [.wait "a" "c" false false, .advance 0 true, .bufferSignalPayloads "a" ["c"], .advance 0 true,
    .deliverBufferedSignals 0, .consume "a" "c", .wait "b" "c" false true, .advance 1 true,
    .advance 1 true, .bufferSignalPayloads "b" ["d", "c"], .advance 1 true,
    .deliverBufferedSignals 0, .advance 1 true, .advance 1 true, .advance 1 true,
    .consume "b" "c", .wait "b" "d" true false, .advance 2 true, .consume "b" "d"]

theorem woken_by_own : wakeupMachine.EveryState NoLostWakeup {} ownKeys ∧
    wakeupMachine.EveryStep WakesOwn {} ownKeys :=
  no_lost_wakeup (show KeysApart [("a", "c"), ("b", "c"), ("b", "d")] by decide +kernel)
    (by decide +kernel)

end Weft.Signals.Wakeup
