import Weft.Reconciliation.Dispatch

/-! Completions that are staged for the next commit of the workflow. A commit is not rejected for
a record that the workflow itself wrote, where no execution moves a record on the verifier's answer
while another one still works under it. -/

namespace Weft.Reconciliation
open Weft.Lib

universe u

variable {κ ι ρ : Type u} {fits : ρ → Bool}

section

variable [DecidableEq κ] [DecidableEq ι] [DecidableEq ρ]

/-- The record that an execution has dispatched the function under, or is about to. -/
def Phase.held : Phase ι ρ → Option (ActivityReconciliationRecord ι ρ)
  | .invoke started => some started
  | .running started => some started
  | .finalize started _ => some started
  | _ => none

/-- The record that an execution is about to replace on the verifier's answer. -/
def Phase.moved : Phase ι ρ → Option (ActivityReconciliationRecord ι ρ)
  | .reclaim record _ => some record
  | .adopt record _ _ => some record
  | _ => none

/-- The completions that wait for a commit or are on their way with one. -/
def World.pending (w : World κ ι ρ) : List (Transition κ ι ρ) :=
  w.staged ++ w.batches.flatMap Batch.transitions

/-- Nobody works under this record of this key or has completed it. -/
def Unheld (w : World κ ι ρ) (key : κ) (record : ActivityReconciliationRecord ι ρ) : Prop :=
  (∀ e ∈ w.executions, e.key = key → e.phase.held ≠ some record) ∧
    ∀ t ∈ w.pending, t.key = key → t.expected ≠ record

instance (w : World κ ι ρ) (key : κ) (record : ActivityReconciliationRecord ι ρ) :
    Decidable (Unheld w key record) :=
  inferInstanceAs (Decidable ((∀ e ∈ w.executions, e.key = key → e.phase.held ≠ some record) ∧
    ∀ t ∈ w.pending, t.key = key → t.expected ≠ record))

/-- No record is moved on the verifier's answer while an execution works under it. -/
def MovesUnheld (w : World κ ι ρ) : Event κ ι ρ → Prop
  | .advance place _ _ _ _ _ => ∀ e ∈ w.executions[place]?, ∀ record ∈ e.phase.moved,
      Unheld w e.key record
  | _ => True

/-- The conditions of a commit hold when it reaches the storage. -/
def CommitAccepted (w : World κ ι ρ) : Event κ ι ρ → Prop
  | .land place _ => ∀ batch ∈ w.batches[place]?, Accepted w.store batch
  | _ => True

/-- What is held or pending is what the store has, and each record is held or pending once. -/
structure Held (fits : ρ → Bool) (w : World κ ι ρ) : Prop where
  inv : Inv fits w
  held : ∀ e ∈ w.executions, ∀ record, e.phase.held = some record → w.store e.key = some record
  pending : ∀ t ∈ w.pending, w.store t.key = some t.expected
  used : ∀ t ∈ w.pending, t.expected.ownerId ∈ w.used
  once : (w.pending.map fun t => t.expected.ownerId).Nodup
  apart : ∀ e ∈ w.executions, ∀ ownerId, e.phase.owner = some ownerId →
    ∀ t ∈ w.pending, t.expected.ownerId ≠ ownerId

end

section

variable [DecidableEq κ]

theorem owner_of_held {phase : Phase ι ρ} {record : ActivityReconciliationRecord ι ρ}
    (h : phase.held = some record) : phase.owner = some record.ownerId := by
  cases phase with
  | invoke started => rw [← Option.some.inj h]; rfl
  | running started => rw [← Option.some.inj h]; rfl
  | finalize started result => rw [← Option.some.inj h]; rfl
  | _ => cases h

end

/-! ## Steps of an execution -/

section

variable [DecidableEq κ] [DecidableEq ι] [DecidableEq ρ]

/-- The store still has what the other executions hold and what is pending. -/
def KeptForOthers (w : World κ ι ρ) (place : Nat)
    (store : κ → Option (ActivityReconciliationRecord ι ρ)) : Prop :=
  (∀ j x record, j ≠ place → w.executions[j]? = some x → x.phase.held = some record →
    store x.key = some record) ∧ ∀ t ∈ w.pending, store t.key = some t.expected

end

section

variable [DecidableEq κ]

/-- Replacing the record of a key leaves what others hold, where nobody else holds that one. -/
theorem Held.kept_put {w : World κ ι ρ} (h : Held fits w) (place : Nat) (e : Execution κ ι ρ)
    (next : ActivityReconciliationRecord ι ρ)
    (hfree : ∀ record, w.store e.key = some record →
      (∀ j x, j ≠ place → w.executions[j]? = some x → x.key = e.key →
        x.phase.held ≠ some record) ∧ ∀ t ∈ w.pending, t.key = e.key → t.expected ≠ record) :
    KeptForOthers w place (Function.update w.store e.key (some next)) := by
  constructor
  · intro j x record hj hx hheld
    have hstore := h.held x (List.mem_of_getElem? hx) record hheld
    by_cases hkey : x.key = e.key
    · exact ((hfree record (hkey ▸ hstore)).1 j x hj hx hkey hheld).elim
    · rw [Function.update_of_ne hkey, hstore]
  · intro t ht
    have hstore := h.pending t ht
    by_cases hkey : t.key = e.key
    · exact ((hfree t.expected (hkey ▸ hstore)).2 t ht hkey rfl).elim
    · rw [Function.update_of_ne hkey, hstore]

end

variable {place : Nat} {e e' : Execution κ ι ρ}

variable {w w' : World κ ι ρ}

/-- One execution goes on and stages nothing. -/
theorem Held.set (h : Held fits w) (hplace : w.executions[place]? = some e)
    (hinv : Inv fits { w' with executions := w.executions.set place e' })
    (hpending : w'.pending = w.pending) (hused : ∀ ownerId ∈ w.used, ownerId ∈ w'.used)
    (howner : ∀ ownerId, e'.phase.owner = some ownerId → e.phase.owner = some ownerId ∨
      ownerId ∉ w.used)
    (hkept : KeptForOthers w place w'.store)
    (hheld : ∀ record, e'.phase.held = some record → w'.store e'.key = some record) :
    Held fits { w' with executions := w.executions.set place e' } where
  inv := hinv
  held := by
    intro x hx record hrecord
    obtain rfl | ⟨j, hj, hx⟩ := mem_set_cases hx
    · exact hheld record hrecord
    · exact hkept.1 j x record hj hx hrecord
  pending := by
    show ∀ t ∈ w'.pending, w'.store t.key = some t.expected
    rw [hpending]
    exact hkept.2
  used := by
    show ∀ t ∈ w'.pending, _
    rw [hpending]
    exact fun t ht => hused _ (h.used t ht)
  once := by
    show (w'.pending.map _).Nodup
    rw [hpending]
    exact h.once
  apart := by
    show ∀ x ∈ w.executions.set place e', ∀ ownerId, x.phase.owner = some ownerId →
      ∀ t ∈ w'.pending, _
    rw [hpending]
    intro x hx ownerId hown t ht heq
    obtain rfl | ⟨j, hj, hx⟩ := mem_set_cases hx
    · rcases howner ownerId hown with hold | hnew
      · exact h.apart e (List.mem_of_getElem? hplace) ownerId hold t ht heq
      · exact hnew (heq ▸ h.used t ht)
    · exact h.apart x (List.mem_of_getElem? hx) ownerId hown t ht heq

/-- One execution stages its completion. -/
theorem Held.stage {w : World κ ι ρ} {t : Transition κ ι ρ} (h : Held fits w)
    (hplace : w.executions[place]? = some e)
    (hinv : Inv fits { w with staged := w.staged ++ [t], executions := w.executions.set place e' })
    (hown : e.phase.owner = some t.expected.ownerId) (hstore : w.store t.key = some t.expected)
    (howner : e'.phase.owner = none) :
    Held fits { w with staged := w.staged ++ [t], executions := w.executions.set place e' } := by
  have hmem := List.mem_of_getElem? hplace
  have hpending : (w.staged ++ [t]) ++ w.batches.flatMap Batch.transitions =
      w.staged ++ t :: w.batches.flatMap Batch.transitions := by
    rw [List.append_assoc, List.singleton_append]
  have hperm : ((w.staged ++ [t]) ++ w.batches.flatMap Batch.transitions).Perm
      (t :: w.pending) := by
    rw [hpending]
    exact List.perm_middle
  refine ⟨hinv, ?_, ?_, ?_, ?_, ?_⟩
  · intro x hx record hheld
    obtain rfl | ⟨j, -, hx⟩ := mem_set_cases hx
    · rw [owner_of_held hheld] at howner
      cases howner
    · exact h.held x (List.mem_of_getElem? hx) record hheld
  · intro t' ht'
    rcases List.mem_cons.1 (hperm.mem_iff.1 ht') with rfl | ht'
    · exact hstore
    · exact h.pending t' ht'
  · intro t' ht'
    rcases List.mem_cons.1 (hperm.mem_iff.1 ht') with rfl | ht'
    · exact h.inv.owners e hmem _ hown
    · exact h.used t' ht'
  · refine ((hperm.map fun t => t.expected.ownerId).nodup_iff).2 ?_
    rw [List.map_cons, List.nodup_cons]
    refine ⟨fun hin => ?_, h.once⟩
    obtain ⟨t', ht', heq⟩ := List.mem_map.1 hin
    exact h.apart e hmem _ hown t' ht' heq
  · intro x hx ownerId hownerId t' ht' heq
    obtain rfl | ⟨j, hj, hxold⟩ := mem_set_cases hx
    · rw [howner] at hownerId
      cases hownerId
    · rcases List.mem_cons.1 (hperm.mem_iff.1 ht') with rfl | ht'
      · rw [heq] at hown
        exact hj (h.inv.distinct j place x e hxold hplace ownerId hownerId hown)
      · exact h.apart x (List.mem_of_getElem? hxold) ownerId hownerId t' ht' heq

section

variable [DecidableEq κ]

theorem Held.advance (h : Held fits w) (hplace : w.executions[place]? = some e)
    (hperforms : Performs fits w e w' e')
    (hunheld : ∀ record ∈ e.phase.moved, Unheld w e.key record) :
    Held fits { w' with executions := w.executions.set place e' } := by
  have hinv := h.inv.advance hplace hperforms
  have hmem := List.mem_of_getElem? hplace
  have hsame : KeptForOthers w place w.store :=
    ⟨fun j x record _ hx => h.held x (List.mem_of_getElem? hx) record, h.pending⟩
  have hmoved : ∀ record next, w.store e.key = some record → record ∈ e.phase.moved →
      KeptForOthers w place (Function.update w.store e.key (some next)) := by
    intro record next hstore hrecord
    refine h.kept_put place e next fun r hr => ?_
    rw [hstore] at hr
    cases hr
    exact ⟨fun j x _ hx => (hunheld record hrecord).1 x (List.mem_of_getElem? hx),
      (hunheld record hrecord).2⟩
  cases hperforms with
  | fails hphase =>
    exact h.set hplace hinv rfl (fun _ hu => hu) (fun _ hown => by cases hown) hsame
      fun _ hheld => by cases hheld
  | sees record hstore =>
    have hresolved : (resolveRecord fits e.verify record).owner = none := resolveRecord_owner _ _
    refine h.set hplace hinv rfl (fun _ hu => hu) (fun ownerId hown => ?_) hsame fun r hheld => ?_
    · rw [hresolved] at hown
      cases hown
    · have hown := owner_of_held hheld
      rw [hresolved] at hown
      cases hown
  | draws drawn now hphase hstore hdrawn =>
    refine h.set hplace hinv rfl (fun _ hu => List.mem_cons_of_mem _ hu) ?_ hsame
      fun _ hheld => by cases hheld
    rintro ownerId ⟨⟩
    exact .inr hdrawn
  | claims record phase hphase hstore hnext =>
    refine h.set hplace hinv rfl (fun _ hu => hu) ?_ (h.kept_put place e record fun r hr => ?_) ?_
    · rcases hnext with rfl | rfl
      · exact fun ownerId hown => .inl (by rw [hphase]; exact hown)
      · exact fun ownerId hown => by cases hown
    · rw [hstore] at hr
      cases hr
    · rcases hnext with rfl | rfl
      · rintro r ⟨⟩
        exact Function.update_self _ _ _
      · exact fun r hheld => by cases hheld
  | reads record hphase =>
    exact h.set hplace hinv rfl (fun _ hu => hu) (fun _ hown => by cases hown) hsame
      fun _ hheld => by cases hheld
  | verified record drawn now hphase hdrawn =>
    refine h.set hplace hinv rfl (fun _ hu => List.mem_cons_of_mem _ hu) ?_ hsame
      fun _ hheld => by cases hheld
    rintro ownerId ⟨⟩
    exact .inr hdrawn
  | adopts record result now hphase hfits =>
    exact h.set hplace hinv rfl (fun _ hu => hu) (fun _ hown => by cases hown) hsame
      fun _ hheld => by cases hheld
  | reclaims record next phase hphase hstore hnext =>
    refine h.set hplace hinv rfl (fun _ hu => hu) ?_
      (hmoved record next hstore (by rw [hphase]; rfl)) ?_
    · rcases hnext with rfl | rfl
      · exact fun ownerId hown => .inl (by rw [hphase]; exact hown)
      · exact fun ownerId hown => by cases hown
    · rcases hnext with rfl | rfl
      · rintro r ⟨⟩
        exact Function.update_self _ _ _
      · exact fun r hheld => by cases hheld
  | completes expected completed result phase hphase hstore hnext =>
    have hkept : KeptForOthers w place (Function.update w.store e.key (some completed)) := by
      rcases hphase with hphase | hphase
      · exact hmoved expected completed hstore (by rw [hphase]; rfl)
      · -- the record is its own, so by the owner id nobody else holds it
        have hown : e.phase.owner = some expected.ownerId := by
          rw [hphase]
          rfl
        refine h.kept_put place e completed fun r hr => ?_
        rw [hstore] at hr
        cases hr
        refine ⟨fun j x hj hx _ hheld => ?_, fun t ht _ heq => ?_⟩
        · exact hj (h.inv.distinct j place x e hx hplace _ (owner_of_held hheld) hown)
        · exact h.apart e hmem _ hown t ht (by rw [heq])
    refine h.set hplace hinv rfl (fun _ hu => hu) ?_ hkept ?_
    · rcases hnext with rfl | rfl
      · exact fun ownerId hown => by cases hown
      · exact fun ownerId hown => by cases hown
    · rcases hnext with rfl | rfl
      · exact fun r hheld => by cases hheld
      · exact fun r hheld => by cases hheld
  | invokes started hphase =>
    refine h.set hplace hinv rfl (fun _ hu => hu)
      (fun ownerId hown => .inl (by rw [hphase]; exact hown)) hsame fun r hheld => ?_
    exact h.held e hmem r (by rw [hphase]; exact hheld)
  | ends started result hphase hfits =>
    refine h.set hplace hinv rfl (fun _ hu => hu)
      (fun ownerId hown => .inl (by rw [hphase]; exact hown)) hsame fun r hheld => ?_
    exact h.held e hmem r (by rw [hphase]; exact hheld)
  | finalizes started result now hphase =>
    exact h.set hplace hinv rfl (fun _ hu => hu)
      (fun ownerId hown => .inl (by rw [hphase]; exact hown)) hsame fun r hheld => by cases hheld
  | stages started result now hphase =>
    have hown : e.phase.owner = some started.ownerId := by
      rw [hphase]
      rfl
    exact h.stage hplace hinv hown (h.held e hmem started (by rw [hphase]; rfl)) rfl

end

/-! ## Commits, crashes and whole runs -/

/-- A world that has less pending and no new execution at work. -/
theorem Held.shrink (h : Held fits w) (hinv : Inv fits w') (hstore : w'.store = w.store)
    (hused : w'.used = w.used) (hpending : w'.pending.Sublist w.pending)
    (hexecutions : ∀ x ∈ w'.executions, x.phase.owner = none ∨ x ∈ w.executions) :
    Held fits w' where
  inv := hinv
  held := by
    intro x hx record hheld
    rcases hexecutions x hx with hnone | hold
    · rw [owner_of_held hheld] at hnone
      cases hnone
    · rw [hstore]
      exact h.held x hold record hheld
  pending := by
    rw [hstore]
    exact fun t ht => h.pending t (hpending.subset ht)
  used := by
    rw [hused]
    exact fun t ht => h.used t (hpending.subset ht)
  once := h.once.sublist (hpending.map _)
  apart := by
    intro x hx ownerId hown t ht
    rcases hexecutions x hx with hnone | hold
    · rw [hnone] at hown
      cases hown
    · exact h.apart x hold ownerId hown t (hpending.subset ht)

variable {batch : Batch κ ι ρ}

/-- What is pending is what one batch has and the rest. -/
theorem pending_perm (w : World κ ι ρ) (home : Nat) (h : w.batches[place]? = some batch) :
    w.pending.Perm (batch.transitions ++
      (w.staged ++ (w.batches.set place ⟨home, []⟩).flatMap Batch.transitions)) := by
  unfold World.pending
  have hset := flatMap_set_perm (f := Batch.transitions) (y := ⟨home, []⟩) h
  exact (hset.append_left w.staged).trans (List.perm_append_comm_assoc _ _ _)

section

variable [DecidableEq κ] [DecidableEq ι] [DecidableEq ρ]

theorem Held.land {w : World κ ι ρ} (h : Held fits w) (hplace : w.batches[place]? = some batch)
    (outcome : Outcome) : Held fits (Reconciliation.land w place batch outcome) := by
  have hinv := h.inv.land hplace outcome
  obtain ⟨hexecutions, hlog, hused, hbatches, -⟩ := land_executions w place batch outcome
  have hperm := pending_perm w batch.home hplace
  -- what stays pending is apart from what the batch has
  have hrest : (Reconciliation.land w place batch outcome).pending.Sublist
      (w.staged ++ (w.batches.set place ⟨batch.home, []⟩).flatMap Batch.transitions) := by
    unfold World.pending
    rw [hbatches]
    refine List.Sublist.append ?_ (List.Sublist.refl _)
    unfold Reconciliation.land
    dsimp only
    split_ifs
    · exact List.filter_sublist
    · exact List.Sublist.refl _
    · exact List.Sublist.refl _
  have honce := (hperm.map fun t => t.expected.ownerId).nodup_iff.1 h.once
  rw [List.map_append, List.nodup_append] at honce
  obtain ⟨-, honce, hdisjoint⟩ := honce
  have hold : ∀ t ∈ (Reconciliation.land w place batch outcome).pending, t ∈ w.pending :=
    fun t ht =>
    hperm.mem_iff.2 (List.mem_append_right _ (hrest.subset ht))
  have hbatch : ∀ t ∈ batch.transitions, t ∈ w.pending := fun t ht =>
    hperm.mem_iff.2 (List.mem_append_left _ ht)
  -- a record of the batch is pending nowhere else, so its key is free
  have hkept : ∀ key record, w.store key = some record →
      (∀ t ∈ batch.transitions, t.expected.ownerId ≠ record.ownerId) →
      (Reconciliation.land w place batch outcome).store key = some record := by
    intro key record hstore hne
    obtain hsame | ⟨haccepted, hput⟩ := land_store w place batch outcome
    · rw [hsame, hstore]
    · rw [hput, putAll_of_ne fun t ht heq => ?_, hstore]
      have hexpected := haccepted t ht
      rw [heq, hstore] at hexpected
      exact hne t ht (by rw [Option.some.inj hexpected])
  refine ⟨hinv, ?_, ?_, ?_, ?_, ?_⟩
  · rw [hexecutions]
    intro x hx record hheld
    refine hkept x.key record (h.held x hx record hheld) fun t ht => ?_
    exact h.apart x hx _ (owner_of_held hheld) t (hbatch t ht)
  · intro t ht
    refine hkept t.key t.expected (h.pending t (hold t ht)) fun t' ht' => ?_
    exact hdisjoint _ (List.mem_map.2 ⟨t', ht', rfl⟩) _
      (List.mem_map.2 ⟨t, hrest.subset ht, rfl⟩)
  · rw [hused]
    exact fun t ht => h.used t (hold t ht)
  · exact honce.sublist (hrest.map _)
  · rw [hexecutions]
    exact fun x hx ownerId hown t ht => h.apart x hx ownerId hown t (hold t ht)

end

theorem Held.take {w : World κ ι ρ} (h : Held fits w) {home : Nat} {w' : World κ ι ρ}
    (hinv : Inv fits w') (hw' : w' = { w with
      staged := w.staged.filter fun t => t.home ≠ home
      batches := w.batches ++ [⟨home, w.staged.filter fun t => t.home = home⟩] }) :
    Held fits w' := by
  have hperm : w'.pending.Perm w.pending := by
    rw [hw']
    show (w.staged.filter (fun t => t.home ≠ home) ++
      (w.batches ++ [(⟨home, w.staged.filter fun t => t.home = home⟩ : Batch κ ι ρ)]).flatMap
        Batch.transitions).Perm _
    rw [List.flatMap_append, List.flatMap_singleton]
    unfold World.pending
    refine (List.perm_append_comm.append_left _).trans ?_
    rw [← List.append_assoc]
    refine List.Perm.append_right _ (List.perm_append_comm.trans ?_)
    have hfilter := List.filter_append_perm (fun t : Transition κ ι ρ => decide (t.home = home))
      w.staged
    simpa only [decide_not] using hfilter
  have hexecutions : w'.executions = w.executions := by rw [hw']
  have hstore : w'.store = w.store := by rw [hw']
  have hused : w'.used = w.used := by rw [hw']
  refine ⟨hinv, ?_, ?_, ?_, ?_, ?_⟩
  · rw [hexecutions, hstore]
    exact h.held
  · rw [hstore]
    exact fun t ht => h.pending t (hperm.mem_iff.1 ht)
  · rw [hused]
    exact fun t ht => h.used t (hperm.mem_iff.1 ht)
  · exact (hperm.map _).nodup_iff.2 h.once
  · rw [hexecutions]
    exact fun x hx ownerId hown t ht => h.apart x hx ownerId hown t (hperm.mem_iff.1 ht)

theorem crash_flatMap_sublist (home : Nat) (batches : List (Batch κ ι ρ)) :
    ((batches.map fun batch => if batch.home = home then (⟨home, []⟩ : Batch κ ι ρ) else batch
      ).flatMap Batch.transitions).Sublist (batches.flatMap Batch.transitions) := by
  induction batches with
  | nil => exact List.Sublist.refl _
  | cons batch batches ih =>
    rw [List.map_cons, List.flatMap_cons, List.flatMap_cons]
    refine List.Sublist.append ?_ ih
    split_ifs
    · exact List.nil_sublist _
    · exact List.Sublist.refl _

section

variable [DecidableEq κ] [DecidableEq ι] [DecidableEq ρ]

theorem Held.step {event : Event κ ι ρ} (h : Held fits w) (hmoves : MovesUnheld w event)
    (hstep : (reconciliationMachine fits).step w event = some w') : Held fits w' := by
  have hinv := h.inv.step hstep
  cases event with
  | call home key operationId attempt verify immediateFenced =>
    cases hstep
    refine h.shrink hinv rfl rfl (List.Sublist.refl _) fun x hx => ?_
    rcases List.mem_append.1 hx with hx | hx
    · exact .inr hx
    · rw [List.mem_singleton.1 hx]
      exact .inl rfl
  | advance place outcome drawn now answer output =>
    obtain ⟨e, hplace, hstep⟩ := Option.bind_eq_some_iff.1 hstep
    obtain ⟨⟨v, e'⟩, hperform, hstep⟩ := Option.bind_eq_some_iff.1 hstep
    cases hstep
    exact h.advance hplace (perform_performs hperform) (hmoves e hplace)
  | take home => exact h.take hinv (Option.some.inj hstep).symm
  | land place outcome =>
    obtain ⟨batch, hplace, hstep⟩ := Option.bind_eq_some_iff.1 hstep
    cases hstep
    exact h.land hplace outcome
  | crash home =>
    cases hstep
    refine h.shrink hinv rfl rfl ?_ fun x hx => ?_
    · exact List.Sublist.append List.filter_sublist (crash_flatMap_sublist home w.batches)
    · obtain ⟨e, he, rfl⟩ := List.mem_map.1 hx
      rcases crash_execution home e with hsame | ⟨-, hfailed⟩
      · rw [hsame]
        exact .inr he
      · rw [hfailed]
        exact .inl rfl

end

theorem Held.accepted {w : World κ ι ρ} (h : Held fits w) (event : Event κ ι ρ) :
    CommitAccepted w event := by
  cases event with
  | land place outcome =>
    intro batch hbatch t ht
    refine h.pending t (List.mem_append_right _ (List.mem_flatMap.2 ⟨batch, ?_, ht⟩))
    exact List.mem_of_getElem? hbatch
  | _ => trivial

theorem held_empty : Held fits ({} : World κ ι ρ) :=
  ⟨inv_empty, fun _ h => (by cases h), fun _ h => (by cases h), fun _ h => (by cases h),
    List.nodup_nil, fun _ h => (by cases h)⟩

section

variable [DecidableEq κ] [DecidableEq ι] [DecidableEq ρ]

/-- Where no record is moved on the verifier's answer while an execution works under it, every
commit finds its conditions in the store. -/
theorem commits_accepted (fits : ρ → Bool) {events : List (Event κ ι ρ)}
    (hmoves : (reconciliationMachine fits).EveryStep MovesUnheld {} events) :
    (reconciliationMachine fits).EveryStep CommitAccepted {} events :=
  Machine.everyStep_of_invariant
    (fun w event _ (hw : Held fits w) hevent hstep => ⟨hw.step hevent hstep, hw.accepted event⟩)
    held_empty hmoves

instance (w : World κ ι ρ) (event : Event κ ι ρ) : Decidable (MovesUnheld w event) :=
  match event with
  | .advance place _ _ _ _ _ =>
    match h : w.executions[place]? with
    | none => isTrue (by simp [MovesUnheld, h])
    | some e =>
      match hmoved : e.phase.moved with
      | none => isTrue (by simp [MovesUnheld, h, hmoved])
      | some record => decidable_of_iff (Unheld w e.key record) (by simp [MovesUnheld, h, hmoved])
  | .call _ _ _ _ _ _ => isTrue trivial
  | .take _ => isTrue trivial
  | .land _ _ => isTrue trivial
  | .crash _ => isTrue trivial

instance (w : World κ ι ρ) (event : Event κ ι ρ) : Decidable (CommitAccepted w event) :=
  match event with
  | .land place _ =>
    match h : w.batches[place]? with
    | none => isTrue (by simp [CommitAccepted, h])
    | some batch => decidable_of_iff (Accepted w.store batch) (by simp [CommitAccepted, h])
  | .call _ _ _ _ _ _ => isTrue trivial
  | .advance _ _ _ _ _ _ => isTrue trivial
  | .take _ => isTrue trivial
  | .crash _ => isTrue trivial

/-- Two branches run the same keyed activity. The completion of the first is staged when the
second one, which the verifier tells the result, writes the record; then the workflow commits. -/
def adoptedWhileStaged : List (Event Nat Nat Nat) :=
  [.call 0 0 0 1 true false, goOn 0 1 .invalid, goOn 0 0 .invalid, goOn 0 0 .invalid,
    goOn 0 0 .invalid, goOn 0 0 .invalid, .call 0 0 0 1 true false, goOn 1 0 .invalid,
    goOn 1 0 (.completedWithResult 0), goOn 1 0 .invalid, .take 0, .land 0 .done]

theorem commit_rejected_by_own_record : ¬ (reconciliationMachine fun _ : Nat => true).EveryStep
    CommitAccepted {} adoptedWhileStaged := by
  decide

/-- The engine that invoked the activity crashes, the next one is told that nothing is completed,
claims the record and crashes too, and a third one is told the result and writes it. Then it commits
the completion of another activity. -/
def movedInTurn : List (Event Nat Nat Nat) :=
  [.call 0 0 0 1 true false, goOn 0 1 .invalid, goOn 0 0 .invalid, goOn 0 0 .invalid, .crash 0,
    .call 1 0 0 2 true false, goOn 1 0 .invalid, goOn 1 2 .notCompleted, goOn 1 0 .invalid,
    goOn 1 0 .invalid, .crash 1, .call 2 0 0 3 true false, goOn 2 0 .invalid,
    goOn 2 0 (.completedWithResult 5), goOn 2 0 .invalid, .call 2 1 0 1 true false,
    goOn 3 4 .invalid, goOn 3 0 .invalid, goOn 3 0 .invalid, goOn 3 0 .invalid,
    goOn 3 0 .invalid, .take 2, .land 0 .done]

theorem commits_accepted_in_turn :
    (reconciliationMachine fun _ : Nat => true).EveryStep CommitAccepted {} movedInTurn ∧
      ((reconciliationMachine fun _ : Nat => true).final {} movedInTurn).executions.map
        Execution.phase = [.failed, .failed, .returned 5, .returned 0] :=
  ⟨commits_accepted (fun _ => true) (by decide), rfl⟩

end

end Weft.Reconciliation
