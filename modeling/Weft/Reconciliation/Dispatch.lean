import Weft.Reconciliation.Model

/-! When the function of a keyed activity is invoked. Every invocation has a claim of its own, and
of two claims the later one was made after the verifier was asked about the earlier; a completed
record stays and is what every execution that reads it returns. -/

namespace Weft.Reconciliation
open Weft.Lib
open scoped List

universe u

variable {κ ι ρ : Type u} {fits : ρ → Bool}

/-! ## The properties -/

section

variable [DecidableEq κ] [DecidableEq ι] [DecidableEq ρ]

/-- An invocation that follows another follows a verification made after the other was claimed. -/
def VerifiedInBetween (log : List (Entry κ ι)) : Prop :=
  ∀ key ownerId ownerId', [.invoked key ownerId', .invoked key ownerId] <+ log →
    [.invoked key ownerId', .notCompleted key ownerId', .claimed key ownerId] <+ log

/-- Every invocation has its own claim, and of two invocations the one that was claimed later was
claimed after the verifier, asked after the other claim, answered `not-completed`. -/
structure VerifiedClaims (log : List (Entry κ ι)) : Prop where
  claimed : ∀ key ownerId, .invoked key ownerId ∈ log →
    [.invoked key ownerId, .claimed key ownerId] <+ log
  once : ∀ key ownerId, ¬ [.invoked key ownerId, .invoked key ownerId] <+ log
  again : ∀ key ownerId ownerId', .invoked key ownerId ∈ log → .invoked key ownerId' ∈ log →
    ownerId ≠ ownerId' →
    [.claimed key ownerId', .notCompleted key ownerId', .claimed key ownerId] <+ log ∨
      [.claimed key ownerId, .notCompleted key ownerId, .claimed key ownerId'] <+ log

/-- An execution that has read a completed record has returned its result. -/
def ReturnsRecorded (w : World κ ι ρ) : Prop :=
  ∀ e ∈ w.executions, ∀ record result, e.seen = some record → record.result = some result →
    e.phase = .returned result

/-- The step leaves the completed records as they are. -/
def KeepsCompleted (fits : ρ → Bool) (w : World κ ι ρ) (event : Event κ ι ρ) : Prop :=
  ∀ w', (reconciliationMachine fits).step w event = some w' → ∀ key record,
    w.store key = some record → record.result.isSome = true → w'.store key = some record

end

/-! ## The log -/

section

variable [DecidableEq κ] [DecidableEq ι] [DecidableEq ρ]

theorem pair_sublist_cons {α : Type u} {a b x : α} {l : List α} :
    [a, b] <+ x :: l ↔ [a, b] <+ l ∨ a = x ∧ b ∈ l := by
  rw [List.cons_sublist_cons', List.singleton_sublist]

theorem right_mem_of_pair {α : Type u} {a b : α} {l : List α} (h : [a, b] <+ l) : b ∈ l :=
  h.subset (List.mem_cons_of_mem a List.mem_cons_self)

/-- What the store and the log have to do with each other. -/
structure Records (fits : ρ → Bool) (store : κ → Option (ActivityReconciliationRecord ι ρ))
    (log : List (Entry κ ι)) (used : List ι) : Prop where
  claimed : ∀ key record, store key = some record → .claimed key record.ownerId ∈ log
  fits : ∀ key record result, store key = some record → record.result = some result →
    fits result = true
  newest : ∀ key record, store key = some record → ∀ ownerId, .claimed key ownerId ∈ log →
    ownerId = record.ownerId ∨ [.claimed key record.ownerId, .claimed key ownerId] <+ log
  empty : ∀ key, store key = none → ∀ ownerId, .claimed key ownerId ∉ log
  chain : ∀ key ownerId ownerId', [.claimed key ownerId', .claimed key ownerId] <+ log →
    [.claimed key ownerId', .notCompleted key ownerId', .claimed key ownerId] <+ log
  invoked : ∀ key ownerId, .invoked key ownerId ∈ log →
    [.invoked key ownerId, .claimed key ownerId] <+ log
  once : ∀ key ownerId, ¬ [.invoked key ownerId, .invoked key ownerId] <+ log
  used : ∀ entry ∈ log, entry.ownerId ∈ used

end

variable {store : κ → Option (ActivityReconciliationRecord ι ρ)} {log : List (Entry κ ι)}
  {used : List ι}

theorem Records.verifiedClaims (h : Records fits store log used) : VerifiedClaims log := by
  refine ⟨h.invoked, h.once, fun key ownerId ownerId' hinvoked hinvoked' hne => ?_⟩
  have hclaimed := right_mem_of_pair (h.invoked key ownerId hinvoked)
  have hclaimed' := right_mem_of_pair (h.invoked key ownerId' hinvoked')
  cases hstore : store key with
  | none => exact (h.empty key hstore ownerId hclaimed).elim
  | some record =>
    -- two claims of one key stand in the log in one of the two orders
    have horder : [.claimed key ownerId', .claimed key ownerId] <+ log ∨
        [.claimed key ownerId, .claimed key ownerId'] <+ log := by
      have hne' : (Entry.claimed key ownerId : Entry κ ι) ≠ .claimed key ownerId' := by
        intro heq
        cases heq
        exact hne rfl
      obtain ⟨before, after, rfl⟩ := List.append_of_mem hclaimed
      rcases List.mem_append.1 hclaimed' with hmem | hmem
      · refine .inl ?_
        exact List.Sublist.append (List.singleton_sublist.2 hmem)
          (List.singleton_sublist.2 List.mem_cons_self)
      · rcases List.mem_cons.1 hmem with heq | hmem
        · exact (hne' heq.symm).elim
        · refine .inr (List.Sublist.trans ?_ (List.sublist_append_right before _))
          exact (List.singleton_sublist.2 hmem).cons_cons _
    rcases horder with hpair | hpair
    · exact .inl (h.chain key ownerId ownerId' hpair)
    · exact .inr (h.chain key ownerId' ownerId hpair)

theorem Records.use (h : Records fits store log used) (drawn : ι) :
    Records fits store log (drawn :: used) :=
  { h with used := fun entry hmem => List.mem_cons_of_mem _ (h.used entry hmem) }

section

variable [DecidableEq κ]

/-- A record is claimed under an owner id that no record has had. -/
theorem Records.claim (h : Records fits store log used) {key : κ}
    {record : ActivityReconciliationRecord ι ρ}
    (hused : record.ownerId ∈ used) (hstarted : record.result = none)
    (hverified : ∀ ownerId, Entry.claimed key ownerId ∈ log →
      [.notCompleted key record.ownerId, .claimed key ownerId] <+ log) :
    Records fits (Function.update store key (some record))
      (.claimed key record.ownerId :: log) used where
  claimed := by
    intro k r hr
    rw [Function.update_apply] at hr
    split_ifs at hr with hk
    · cases hr
      rw [hk]
      exact List.mem_cons_self
    · exact List.mem_cons_of_mem _ (h.claimed k r hr)
  fits := by
    intro k r result hr hresult
    rw [Function.update_apply] at hr
    split_ifs at hr with hk
    · cases hr
      rw [hstarted] at hresult
      cases hresult
    · exact h.fits k r result hr hresult
  newest := by
    intro k r hr ownerId hmem
    rw [Function.update_apply] at hr
    split_ifs at hr with hk
    · cases hr
      rcases List.mem_cons.1 hmem with heq | hmem
      · cases heq
        exact .inl rfl
      · rw [hk] at hmem ⊢
        exact .inr (pair_sublist_cons.2 (.inr ⟨rfl, hmem⟩))
    · rcases List.mem_cons.1 hmem with heq | hmem
      · cases heq
        exact (hk rfl).elim
      · obtain heq | hpair := h.newest k r hr ownerId hmem
        · exact .inl heq
        · exact .inr (hpair.cons _)
  empty := by
    intro k hk ownerId hmem
    rw [Function.update_apply] at hk
    split_ifs at hk with hkey
    rcases List.mem_cons.1 hmem with heq | hmem
    · cases heq
      exact hkey rfl
    · exact h.empty k hk ownerId hmem
  chain := by
    intro k ownerId ownerId' hpair
    rcases pair_sublist_cons.1 hpair with hpair | ⟨heq, hmem⟩
    · exact (h.chain k ownerId ownerId' hpair).cons _
    · cases heq
      exact (hverified ownerId hmem).cons_cons _
  invoked := by
    intro k ownerId hmem
    rcases List.mem_cons.1 hmem with heq | hmem
    · cases heq
    · exact (h.invoked k ownerId hmem).cons _
  once := by
    intro k ownerId hpair
    rcases pair_sublist_cons.1 hpair with hpair | ⟨heq, -⟩
    · exact h.once k ownerId hpair
    · cases heq
  used := by
    intro entry hmem
    rcases List.mem_cons.1 hmem with rfl | hmem
    · exact hused
    · exact h.used entry hmem

/-- A record is completed under the owner id it has. -/
theorem Records.complete (h : Records fits store log used) {key : κ}
    {expected completed : ActivityReconciliationRecord ι ρ} (hstore : store key = some expected)
    (howner : completed.ownerId = expected.ownerId)
    (hfits : ∀ result, completed.result = some result → fits result = true) :
    Records fits (Function.update store key (some completed)) log used := { h with
  claimed := by
    intro k r hr
    rw [Function.update_apply] at hr
    split_ifs at hr with hk
    · cases hr
      rw [hk, howner]
      exact h.claimed key expected hstore
    · exact h.claimed k r hr
  fits := by
    intro k r result hr hresult
    rw [Function.update_apply] at hr
    split_ifs at hr with hk
    · cases hr
      exact hfits result hresult
    · exact h.fits k r result hr hresult
  newest := by
    intro k r hr ownerId hmem
    rw [Function.update_apply] at hr
    split_ifs at hr with hk
    · cases hr
      rw [hk] at hmem ⊢
      rw [howner]
      exact h.newest key expected hstore ownerId hmem
    · exact h.newest k r hr ownerId hmem
  empty := by
    intro k hk
    rw [Function.update_apply] at hk
    split_ifs at hk
    exact h.empty k hk }

end

theorem Records.noteNotCompleted (h : Records fits store log used) {key : κ} {drawn : ι}
    (hused : drawn ∈ used) : Records fits store (.notCompleted key drawn :: log) used where
  claimed := fun k r hr => List.mem_cons_of_mem _ (h.claimed k r hr)
  fits := h.fits
  newest := by
    intro k r hr ownerId hmem
    rcases List.mem_cons.1 hmem with heq | hmem
    · cases heq
    · exact (h.newest k r hr ownerId hmem).imp_right fun hpair => hpair.cons _
  empty := by
    intro k hk ownerId hmem
    rcases List.mem_cons.1 hmem with heq | hmem
    · cases heq
    · exact h.empty k hk ownerId hmem
  chain := by
    intro k ownerId ownerId' hpair
    rcases pair_sublist_cons.1 hpair with hpair | ⟨heq, -⟩
    · exact (h.chain k ownerId ownerId' hpair).cons _
    · cases heq
  invoked := by
    intro k ownerId hmem
    rcases List.mem_cons.1 hmem with heq | hmem
    · cases heq
    · exact (h.invoked k ownerId hmem).cons _
  once := by
    intro k ownerId hpair
    rcases pair_sublist_cons.1 hpair with hpair | ⟨heq, -⟩
    · exact h.once k ownerId hpair
    · cases heq
  used := by
    intro entry hmem
    rcases List.mem_cons.1 hmem with rfl | hmem
    · exact hused
    · exact h.used entry hmem

theorem Records.noteInvoked (h : Records fits store log used) {key : κ} {ownerId : ι}
    (hclaimed : Entry.claimed key ownerId ∈ log) (hnew : ∀ k, Entry.invoked k ownerId ∉ log) :
    Records fits store (.invoked key ownerId :: log) used where
  claimed := fun k r hr => List.mem_cons_of_mem _ (h.claimed k r hr)
  fits := h.fits
  newest := by
    intro k r hr o hmem
    rcases List.mem_cons.1 hmem with heq | hmem
    · cases heq
    · exact (h.newest k r hr o hmem).imp_right fun hpair => hpair.cons _
  empty := by
    intro k hk o hmem
    rcases List.mem_cons.1 hmem with heq | hmem
    · cases heq
    · exact h.empty k hk o hmem
  chain := by
    intro k o o' hpair
    rcases pair_sublist_cons.1 hpair with hpair | ⟨heq, -⟩
    · exact (h.chain k o o' hpair).cons _
    · cases heq
  invoked := by
    intro k o hmem
    rcases List.mem_cons.1 hmem with heq | hmem
    · cases heq
      exact pair_sublist_cons.2 (.inr ⟨rfl, hclaimed⟩)
    · exact (h.invoked k o hmem).cons _
  once := by
    intro k o hpair
    rcases pair_sublist_cons.1 hpair with hpair | ⟨heq, hmem⟩
    · exact h.once k o hpair
    · cases heq
      exact hnew _ hmem
  used := by
    intro entry hmem
    rcases List.mem_cons.1 hmem with rfl | hmem
    · exact h.used (.claimed key ownerId) hclaimed
    · exact h.used entry hmem

/-! ## The executions -/

section

variable [DecidableEq κ] [DecidableEq ι] [DecidableEq ρ]

/-- What holds of an execution in a phase. -/
def Fine (fits : ρ → Bool) (log : List (Entry κ ι)) (key : κ) : Phase ι ρ → Prop
  | .claim record => record.result = none ∧ ∀ k, .claimed k record.ownerId ∉ log ∧
      .invoked k record.ownerId ∉ log
  | .verify record => record.result = none ∧ .claimed key record.ownerId ∈ log
  | .reclaim record next => record.result = none ∧ next.result = none ∧
      (∀ k, .claimed k next.ownerId ∉ log ∧ .invoked k next.ownerId ∉ log) ∧
      .claimed key record.ownerId ∈ log ∧
      ∀ ownerId, (ownerId = record.ownerId ∨
          [.claimed key record.ownerId, .claimed key ownerId] <+ log) →
        [.notCompleted key next.ownerId, .claimed key ownerId] <+ log
  | .adopt record completed result => record.result = none ∧
      completed.ownerId = record.ownerId ∧ completed.result = some result ∧ fits result = true
  | .invoke started => started.result = none ∧ .claimed key started.ownerId ∈ log ∧
      ∀ k, .invoked k started.ownerId ∉ log
  | .running started => started.result = none
  | .finalize started result => started.result = none ∧ fits result = true
  | .commit started completed result => started.result = none ∧
      completed.ownerId = started.ownerId ∧ completed.result = some result ∧ fits result = true
  | _ => True

end

/-- The log grows by an entry under another owner id. -/
theorem Fine.note {key : κ} {phase : Phase ι ρ} (h : Fine fits log key phase) {entry : Entry κ ι}
    (hother : ∀ ownerId, phase.owner = some ownerId → entry.ownerId ≠ ownerId)
    (hnew : ∀ k ownerId, entry = .claimed k ownerId → ∀ k', Entry.claimed k' ownerId ∉ log) :
    Fine fits (entry :: log) key phase := by
  have hkeeps : ∀ ownerId, phase.owner = some ownerId → ∀ x : Entry κ ι, x.ownerId = ownerId →
      x ∉ log → x ∉ entry :: log := by
    intro ownerId howner x hx hnot hmem
    rcases List.mem_cons.1 hmem with rfl | hmem
    · exact hother ownerId howner hx
    · exact hnot hmem
  cases phase with
  | claim record =>
    obtain ⟨hresult, hnone⟩ := h
    exact ⟨hresult, fun k => ⟨hkeeps _ rfl _ rfl (hnone k).1, hkeeps _ rfl _ rfl (hnone k).2⟩⟩
  | verify record => exact ⟨h.1, List.mem_cons_of_mem _ h.2⟩
  | reclaim record next =>
    obtain ⟨hresult, hresult', hnone, hclaimed, hverified⟩ := h
    refine ⟨hresult, hresult', fun k => ⟨hkeeps _ rfl _ rfl (hnone k).1,
      hkeeps _ rfl _ rfl (hnone k).2⟩, List.mem_cons_of_mem _ hclaimed, fun ownerId hold => ?_⟩
    refine (hverified ownerId ?_).cons _
    rcases hold with heq | hpair
    · exact .inl heq
    · rcases pair_sublist_cons.1 hpair with hpair | ⟨heq, -⟩
      · exact .inr hpair
      · exact (hnew _ _ heq.symm _ hclaimed).elim
  | adopt record completed result => exact h
  | invoke started =>
    exact ⟨h.1, List.mem_cons_of_mem _ h.2.1, fun k => hkeeps _ rfl _ rfl (h.2.2 k)⟩
  | running started => exact h
  | finalize started result => exact h
  | commit started completed result => exact h
  | _ => trivial

section

variable [DecidableEq κ] [DecidableEq ι] [DecidableEq ρ]

/-- A completion carries on the owner id of the record that it completes. -/
def Transition.Fine (fits : ρ → Bool) (t : Transition κ ι ρ) : Prop :=
  t.expected.result = none ∧ t.next.ownerId = t.expected.ownerId ∧
    ∀ result, t.next.result = some result → fits result = true

structure Inv (fits : ρ → Bool) (w : World κ ι ρ) : Prop where
  records : Records fits w.store w.log w.used
  fine : ∀ e ∈ w.executions, Fine fits w.log e.key e.phase
  owners : ∀ e ∈ w.executions, ∀ ownerId, e.phase.owner = some ownerId → ownerId ∈ w.used
  distinct : ∀ (i j : Nat) (e e' : Execution κ ι ρ), w.executions[i]? = some e →
    w.executions[j]? = some e' → ∀ ownerId, e.phase.owner = some ownerId →
      e'.phase.owner = some ownerId → i = j
  returned : ReturnsRecorded w
  staged : ∀ t ∈ w.staged, t.Fine fits
  batches : ∀ batch ∈ w.batches, ∀ t ∈ batch.transitions, t.Fine fits

end

variable {w w' : World κ ι ρ} {e e' : Execution κ ι ρ}

variable {place : Nat}

/-- One execution goes on and the others stay. -/
theorem Inv.set (h : Inv fits w) (hplace : w.executions[place]? = some e)
    (hrecords : Records fits w'.store w'.log w'.used) (hfine : Fine fits w'.log e'.key e'.phase)
    (hothers : ∀ j x, j ≠ place → w.executions[j]? = some x → Fine fits w'.log x.key x.phase)
    (howner : ∀ ownerId, e'.phase.owner = some ownerId →
      e.phase.owner = some ownerId ∨ ownerId ∉ w.used ∧ ownerId ∈ w'.used)
    (hused : ∀ ownerId ∈ w.used, ownerId ∈ w'.used)
    (hseen : ∀ record result, e'.seen = some record → record.result = some result →
      e'.phase = .returned result)
    (hstaged : ∀ t ∈ w'.staged, t.Fine fits) (hbatches : w'.batches = w.batches) :
    Inv fits { w' with executions := w.executions.set place e' } where
  records := hrecords
  fine := by
    intro x hx
    obtain rfl | ⟨j, hj, hx⟩ := mem_set_cases hx
    · exact hfine
    · exact hothers j x hj hx
  owners := by
    intro x hx ownerId hownerId
    obtain rfl | ⟨j, hj, hx⟩ := mem_set_cases hx
    · obtain hold | ⟨-, hnew⟩ := howner ownerId hownerId
      · exact hused _ (h.owners e (List.mem_of_getElem? hplace) ownerId hold)
      · exact hnew
    · exact hused _ (h.owners x (List.mem_of_getElem? hx) ownerId hownerId)
  distinct := by
    -- an owner id of another execution is in use, so it was not drawn just now
    have hcross : ∀ j x, j ≠ place → w.executions[j]? = some x → ∀ ownerId,
        e'.phase.owner = some ownerId → x.phase.owner = some ownerId → False := by
      intro j x hj hx ownerId hown hown'
      obtain hold | ⟨hnew, -⟩ := howner ownerId hown
      · exact hj (h.distinct j place x e hx hplace ownerId hown' hold)
      · exact hnew (h.owners x (List.mem_of_getElem? hx) ownerId hown')
    intro i j x y hx hy ownerId hown hown'
    obtain ⟨rfl, rfl⟩ | ⟨hi, hxold⟩ := getElem?_set_cases hx
    · obtain ⟨rfl, -⟩ | ⟨hj, hyold⟩ := getElem?_set_cases hy
      · rfl
      · exact (hcross j y hj hyold ownerId hown hown').elim
    · obtain ⟨rfl, rfl⟩ | ⟨hj, hyold⟩ := getElem?_set_cases hy
      · exact (hcross i x hi hxold ownerId hown' hown).elim
      · exact h.distinct i j x y hxold hyold ownerId hown hown'
  returned := by
    intro x hx
    obtain rfl | ⟨j, -, hx⟩ := mem_set_cases hx
    · exact hseen
    · exact h.returned x (List.mem_of_getElem? hx)
  staged := hstaged
  batches := by
    show ∀ batch ∈ w'.batches, _
    rw [hbatches]
    exact h.batches

variable {w : World κ ι ρ}

variable {e : Execution κ ι ρ}

/-- What an execution that has not read a completed record keeps. -/
theorem Inv.seen_of_owner (h : Inv fits w) (hmem : e ∈ w.executions)
    (hphase : ∀ result, e.phase ≠ .returned result) {phase : Phase ι ρ} :
    ∀ record result, e.seen = some record → record.result = some result →
      phase = .returned result :=
  fun record result hseen hresult =>
    (hphase result (h.returned e hmem record result hseen hresult)).elim

section

variable [DecidableEq κ]

theorem resolveRecord_owner (verify : Bool) (record : ActivityReconciliationRecord ι ρ) :
    (resolveRecord fits verify record).owner = none := by
  unfold resolveRecord
  cases record.result with
  | some result =>
    dsimp only
    split_ifs <;> rfl
  | none =>
    dsimp only
    split_ifs <;> rfl

end

theorem fine_resolveRecord (h : Records fits store log used) {key : κ} (verify : Bool)
    {record : ActivityReconciliationRecord ι ρ} (hstore : store key = some record) :
    Fine fits log key (resolveRecord fits verify record) ∧
      ∀ result, record.result = some result →
        resolveRecord fits verify record = .returned result := by
  unfold resolveRecord
  cases hresult : record.result with
  | some result =>
    have hfits := h.fits key record result hstore hresult
    dsimp only
    rw [if_pos hfits]
    exact ⟨trivial, fun result' heq => by rw [Option.some.inj heq]⟩
  | none =>
    refine ⟨?_, fun result heq => by cases heq⟩
    dsimp only
    split_ifs
    · exact ⟨hresult, h.claimed key record hstore⟩
    · trivial

/-- The entry that an execution writes is under its own owner id, so the others stay fine. -/
theorem Inv.others_note (h : Inv fits w) (hplace : w.executions[place]? = some e)
    {entry : Entry κ ι} (hown : e.phase.owner = some entry.ownerId ∨ entry.ownerId ∉ w.used)
    (hnew : ∀ k ownerId, entry = .claimed k ownerId → ∀ k', Entry.claimed k' ownerId ∉ w.log) :
    ∀ j x, j ≠ place → w.executions[j]? = some x → Fine fits (entry :: w.log) x.key x.phase := by
  intro j x hj hx
  refine (h.fine x (List.mem_of_getElem? hx)).note (fun ownerId hownerId heq => ?_) hnew
  rcases hown with hown | hfresh
  · rw [heq] at hown
    exact hj (h.distinct j place x e hx hplace ownerId hownerId hown)
  · rw [heq] at hfresh
    exact hfresh (h.owners x (List.mem_of_getElem? hx) ownerId hownerId)

section

variable [DecidableEq κ]

/-- Where no claim was made, no verification is owed. -/
theorem Records.claim_first (h : Records fits store log used) {key : κ} (hstore : store key = none)
    {record : ActivityReconciliationRecord ι ρ} (hused : record.ownerId ∈ used)
    (hstarted : record.result = none) :
    Records fits (Function.update store key (some record)) (.claimed key record.ownerId :: log)
      used :=
  h.claim hused hstarted fun ownerId hmem => (h.empty key hstore ownerId hmem).elim

/-- A claim on the verifier's answer, of a record that is still there. -/
theorem Records.reclaim (h : Records fits store log used) {key : κ}
    {record next : ActivityReconciliationRecord ι ρ} (hstore : store key = some record)
    (hused : next.ownerId ∈ used) (hfine : Fine fits log key (.reclaim record next)) :
    Records fits (Function.update store key (some next)) (.claimed key next.ownerId :: log)
      used := by
  obtain ⟨-, hstarted, -, -, hverified⟩ := hfine
  exact h.claim hused hstarted fun ownerId hmem =>
    hverified ownerId (h.newest key record hstore ownerId hmem)

theorem Inv.advance (h : Inv fits w) (hplace : w.executions[place]? = some e)
    (hperforms : Performs fits w e w' e') :
    Inv fits { w' with executions := w.executions.set place e' } := by
  have hmem := List.mem_of_getElem? hplace
  have hfine := h.fine e hmem
  have howners := h.owners e hmem
  have hstay : ∀ j x, j ≠ place → w.executions[j]? = some x → Fine fits w.log x.key x.phase :=
    fun j x _ hx => h.fine x (List.mem_of_getElem? hx)
  have hself : ∀ {phase : Phase ι ρ}, (∀ result, e.phase ≠ .returned result) →
      ∀ record result, e.seen = some record → record.result = some result →
        phase = .returned result := fun hphase => h.seen_of_owner hmem hphase
  cases hperforms with
  | fails hphase =>
    exact h.set hplace h.records trivial hstay (fun _ howner => by cases howner) (fun _ hu => hu)
      (hself hphase) h.staged rfl
  | sees record hstore =>
    obtain ⟨hresolved, hreturns⟩ := fine_resolveRecord h.records e.verify hstore
    refine h.set hplace h.records hresolved hstay ?_ (fun _ hu => hu) ?_ h.staged rfl
    · intro ownerId howner
      rw [show (resolveRecord fits e.verify record).owner = none from resolveRecord_owner _ _]
        at howner
      cases howner
    · rintro record' result ⟨⟩ hresult
      exact hreturns result hresult
  | draws drawn now hphase hstore hdrawn =>
    refine h.set hplace (h.records.use drawn) ⟨rfl, fun k => ⟨fun hk => ?_, fun hk => ?_⟩⟩ hstay ?_
      (fun _ hu => List.mem_cons_of_mem _ hu) (hself (by simp [hphase])) h.staged rfl
    · exact hdrawn (h.records.used _ hk)
    · exact hdrawn (h.records.used _ hk)
    · rintro ownerId ⟨⟩
      exact .inr ⟨hdrawn, List.mem_cons_self⟩
  | claims record phase hphase hstore hnext =>
    rw [hphase] at hfine howners
    obtain ⟨hresult, hnone⟩ := hfine
    refine h.set hplace (h.records.claim_first hstore (howners _ rfl) hresult) ?_
      (h.others_note hplace (.inl (by rw [hphase]; rfl)) ?_) ?_ (fun _ hu => hu)
      (hself (by simp [hphase])) h.staged rfl
    · rcases hnext with rfl | rfl
      · refine ⟨hresult, List.mem_cons_self, fun k hk => ?_⟩
        rcases List.mem_cons.1 hk with heq | hk
        · cases heq
        · exact (hnone k).2 hk
      · trivial
    · rintro k ownerId ⟨⟩ k'
      exact (hnone k').1
    · rcases hnext with rfl | rfl
      · intro ownerId howner
        exact .inl (by rw [hphase]; exact howner)
      · intro ownerId howner
        cases howner
  | reads record hphase =>
    exact h.set hplace h.records trivial hstay (fun _ howner => by cases howner) (fun _ hu => hu)
      (hself (by simp [hphase])) h.staged rfl
  | verified record drawn now hphase hdrawn =>
    rw [hphase] at hfine
    obtain ⟨hresult, hclaimed⟩ := hfine
    refine h.set hplace ((h.records.use drawn).noteNotCompleted List.mem_cons_self)
      ⟨hresult, hresult, fun k => ⟨fun hk => ?_, fun hk => ?_⟩, List.mem_cons_of_mem _ hclaimed,
        fun ownerId hold => ?_⟩
      (h.others_note hplace (.inr hdrawn) fun k ownerId heq => by cases heq) ?_
      (fun _ hu => List.mem_cons_of_mem _ hu) (hself (by simp [hphase])) h.staged rfl
    · rcases List.mem_cons.1 hk with heq | hk
      · cases heq
      · exact hdrawn (h.records.used _ hk)
    · rcases List.mem_cons.1 hk with heq | hk
      · cases heq
      · exact hdrawn (h.records.used _ hk)
    · refine pair_sublist_cons.2 (.inr ⟨rfl, ?_⟩)
      rcases hold with rfl | hpair
      · exact hclaimed
      · rcases List.mem_cons.1 (right_mem_of_pair hpair) with heq | hmem'
        · cases heq
        · exact hmem'
    · rintro ownerId ⟨⟩
      exact .inr ⟨hdrawn, List.mem_cons_self⟩
  | adopts record result now hphase hfits =>
    rw [hphase] at hfine
    exact h.set hplace h.records ⟨hfine.1, rfl, rfl, hfits⟩ hstay (fun _ howner => by cases howner)
      (fun _ hu => hu) (hself (by simp [hphase])) h.staged rfl
  | reclaims record next phase hphase hstore hnext =>
    rw [hphase] at hfine howners
    have hrecords := h.records.reclaim hstore (howners _ rfl) hfine
    obtain ⟨-, hresult, hnone, -⟩ := hfine
    refine h.set hplace hrecords ?_
      (h.others_note hplace (.inl (by rw [hphase]; rfl)) ?_) ?_ (fun _ hu => hu)
      (hself (by simp [hphase])) h.staged rfl
    · rcases hnext with rfl | rfl
      · refine ⟨hresult, List.mem_cons_self, fun k hk => ?_⟩
        rcases List.mem_cons.1 hk with heq | hk
        · cases heq
        · exact (hnone k).2 hk
      · trivial
    · rintro k ownerId ⟨⟩ k'
      exact (hnone k').1
    · rcases hnext with rfl | rfl
      · intro ownerId howner
        exact .inl (by rw [hphase]; exact howner)
      · intro ownerId howner
        cases howner
  | completes expected completed result phase hphase hstore hnext =>
    have hcompleted : completed.ownerId = expected.ownerId ∧ completed.result = some result ∧
        fits result = true ∧ ∀ x, e.phase ≠ .returned x := by
      rcases hphase with hphase | hphase
      · rw [hphase] at hfine ⊢
        exact ⟨hfine.2.1, hfine.2.2.1, hfine.2.2.2, fun x => by simp⟩
      · rw [hphase] at hfine ⊢
        exact ⟨hfine.2.1, hfine.2.2.1, hfine.2.2.2, fun x => by simp⟩
    obtain ⟨howner, hresult, hfits, hlive⟩ := hcompleted
    refine h.set hplace (h.records.complete hstore howner fun x hx => ?_) ?_ hstay ?_
      (fun _ hu => hu) (hself hlive) h.staged rfl
    · rw [hresult] at hx
      rw [← Option.some.inj hx]
      exact hfits
    · rcases hnext with rfl | rfl <;> trivial
    · intro ownerId hown
      rcases hnext with rfl | rfl <;> cases hown
  | invokes started hphase =>
    rw [hphase] at hfine
    obtain ⟨hresult, hclaimed, hnone⟩ := hfine
    refine h.set hplace (h.records.noteInvoked hclaimed hnone) hresult
      (h.others_note hplace (.inl (by rw [hphase]; rfl)) fun k ownerId heq => by cases heq)
      (fun ownerId howner => .inl (by rw [hphase]; exact howner)) (fun _ hu => hu)
      (hself (by simp [hphase])) h.staged rfl
  | ends started result hphase hfits =>
    rw [hphase] at hfine
    exact h.set hplace h.records ⟨hfine, hfits⟩ hstay
      (fun ownerId howner => .inl (by rw [hphase]; exact howner)) (fun _ hu => hu)
      (hself (by simp [hphase])) h.staged rfl
  | finalizes started result now hphase =>
    rw [hphase] at hfine
    exact h.set hplace h.records ⟨hfine.1, rfl, rfl, hfine.2⟩ hstay
      (fun ownerId howner => .inl (by rw [hphase]; exact howner)) (fun _ hu => hu)
      (hself (by simp [hphase])) h.staged rfl
  | stages started result now hphase =>
    rw [hphase] at hfine
    refine h.set hplace h.records trivial hstay (fun _ howner => by cases howner) (fun _ hu => hu)
      (hself (by simp [hphase])) (fun t ht => ?_) rfl
    rcases List.mem_append.1 ht with ht | ht
    · exact h.staged t ht
    · rw [List.mem_singleton.1 ht]
      refine ⟨hfine.1, rfl, ?_⟩
      rintro x ⟨⟩
      exact hfine.2

end

/-! ## Commits, crashes and whole runs -/

variable {transitions : List (Transition κ ι ρ)}

section

variable [DecidableEq κ]

theorem putAll_of_ne {key : κ} (h : ∀ t ∈ transitions, t.key ≠ key) :
    putAll store transitions key = store key := by
  induction transitions generalizing store with
  | nil => rfl
  | cons t transitions ih =>
    show putAll (Function.update store t.key (some t.next)) transitions key = store key
    rw [ih fun t' ht' => h t' (List.mem_cons_of_mem _ ht'),
      Function.update_of_ne (h t List.mem_cons_self).symm]

theorem Records.putAll (h : Records fits store log used) (hfine : ∀ t ∈ transitions, t.Fine fits)
    (hold : ∀ t ∈ transitions, ∃ record, store t.key = some record ∧
      record.ownerId = t.expected.ownerId) :
    Records fits (putAll store transitions) log used := by
  induction transitions generalizing store with
  | nil => exact h
  | cons t transitions ih =>
    obtain ⟨record, hrecord, howner⟩ := hold t List.mem_cons_self
    obtain ⟨-, hnext, hfits⟩ := hfine t List.mem_cons_self
    refine ih (h.complete hrecord (hnext.trans howner.symm) hfits)
      (fun t' ht' => hfine t' (List.mem_cons_of_mem _ ht')) fun t' ht' => ?_
    obtain ⟨record', hrecord', howner'⟩ := hold t' (List.mem_cons_of_mem _ ht')
    by_cases hkey : t'.key = t.key
    · rw [hkey] at hrecord' ⊢
      rw [hrecord] at hrecord'
      refine ⟨t.next, Function.update_self _ _ _, ?_⟩
      rw [hnext, ← howner, Option.some.inj hrecord', howner']
    · exact ⟨record', (Function.update_of_ne hkey _ _).trans hrecord', howner'⟩

end

section

variable [DecidableEq κ] [DecidableEq ι] [DecidableEq ρ]

theorem land_executions (w : World κ ι ρ) (place : Nat) (batch : Batch κ ι ρ) (outcome : Outcome) :
    (land w place batch outcome).executions = w.executions ∧
      (land w place batch outcome).log = w.log ∧ (land w place batch outcome).used = w.used ∧
      (land w place batch outcome).batches = w.batches.set place ⟨batch.home, []⟩ ∧
      (∀ t ∈ (land w place batch outcome).staged, t ∈ w.staged) := by
  unfold land
  dsimp only
  split_ifs with hcond hdone
  · exact ⟨rfl, rfl, rfl, rfl, fun t ht => List.mem_of_mem_filter ht⟩
  · exact ⟨rfl, rfl, rfl, rfl, fun t ht => ht⟩
  · exact ⟨rfl, rfl, rfl, rfl, fun t ht => ht⟩

theorem land_store (w : World κ ι ρ) (place : Nat) (batch : Batch κ ι ρ) (outcome : Outcome) :
    (land w place batch outcome).store = w.store ∨ Accepted w.store batch ∧
      (land w place batch outcome).store = putAll w.store batch.transitions := by
  unfold land
  dsimp only
  by_cases hcond : outcome ≠ .refused ∧ Accepted w.store batch
  · rw [if_pos hcond]
    exact .inr ⟨hcond.2, rfl⟩
  · rw [if_neg hcond]
    exact .inl rfl

theorem Inv.land {batch : Batch κ ι ρ} (h : Inv fits w) (hplace : w.batches[place]? = some batch)
    (outcome : Outcome) : Inv fits (land w place batch outcome) := by
  obtain ⟨hexecutions, hlog, hused, hbatches, hstaged⟩ := land_executions w place batch outcome
  have hfine := h.batches batch (List.mem_of_getElem? hplace)
  refine ⟨?_, ?_, ?_, ?_, ?_, fun t ht => h.staged t (hstaged t ht), ?_⟩
  · rw [hlog, hused]
    obtain hsame | ⟨haccepted, hput⟩ := land_store w place batch outcome
    · rw [hsame]
      exact h.records
    · rw [hput]
      exact h.records.putAll hfine fun t ht => ⟨t.expected, haccepted t ht, rfl⟩
  · rw [hexecutions, hlog]
    exact h.fine
  · rw [hexecutions, hused]
    exact h.owners
  · rw [hexecutions]
    exact h.distinct
  · unfold ReturnsRecorded
    rw [hexecutions]
    exact h.returned
  · rw [hbatches]
    intro b hb
    obtain rfl | ⟨j, -, hj⟩ := mem_set_cases hb
    · exact fun t ht => by cases ht
    · exact h.batches b (List.mem_of_getElem? hj)

end

/-- What a crash leaves of an execution. -/
theorem crash_execution (home : Nat) (e : Execution κ ι ρ) :
    e.crash home = e ∨ (∀ result, e.phase ≠ .returned result) ∧
      e.crash home = { e with phase := .failed } := by
  unfold Execution.crash
  cases hphase : e.phase with
  | returned result => exact .inl rfl
  | _ =>
    dsimp only
    split_ifs
    · exact .inr ⟨fun result heq => (by cases heq), rfl⟩
    · exact .inl rfl

section

variable [DecidableEq κ] [DecidableEq ι] [DecidableEq ρ]

theorem Inv.step {event : Event κ ι ρ} (h : Inv fits w)
    (hstep : (reconciliationMachine fits).step w event = some w') : Inv fits w' := by
  cases event with
  | call home key operationId attempt verify immediateFenced =>
    cases hstep
    refine ⟨h.records, ?_, ?_, ?_, ?_, h.staged, h.batches⟩
    · intro e he
      rcases List.mem_append.1 he with he | he
      · exact h.fine e he
      · rw [List.mem_singleton.1 he]
        trivial
    · intro e he ownerId howner
      rcases List.mem_append.1 he with he | he
      · exact h.owners e he ownerId howner
      · rw [List.mem_singleton.1 he] at howner
        cases howner
    · intro i j e e' he he' ownerId howner howner'
      obtain ⟨-, he⟩ | ⟨-, rfl⟩ := getElem?_concat_cases he
      · obtain ⟨-, he'⟩ | ⟨-, rfl⟩ := getElem?_concat_cases he'
        · exact h.distinct i j e e' he he' ownerId howner howner'
        · cases howner'
      · cases howner
    · intro e he
      rcases List.mem_append.1 he with he | he
      · exact h.returned e he
      · rw [List.mem_singleton.1 he]
        rintro record result ⟨⟩
  | advance place outcome drawn now answer output =>
    obtain ⟨e, hplace, hstep⟩ := Option.bind_eq_some_iff.1 hstep
    obtain ⟨⟨v, e'⟩, hperform, hstep⟩ := Option.bind_eq_some_iff.1 hstep
    cases hstep
    exact h.advance hplace (perform_performs hperform)
  | take home =>
    cases hstep
    refine ⟨h.records, h.fine, h.owners, h.distinct, h.returned,
      fun t ht => h.staged t (List.mem_of_mem_filter ht), fun batch hbatch => ?_⟩
    rcases List.mem_append.1 hbatch with hbatch | hbatch
    · exact h.batches batch hbatch
    · rw [List.mem_singleton.1 hbatch]
      exact fun t ht => h.staged t (List.mem_of_mem_filter ht)
  | land place outcome =>
    obtain ⟨batch, hplace, hstep⟩ := Option.bind_eq_some_iff.1 hstep
    cases hstep
    exact h.land hplace outcome
  | crash home =>
    cases hstep
    refine ⟨h.records, ?_, ?_, ?_, ?_, fun t ht => h.staged t (List.mem_of_mem_filter ht), ?_⟩
    · intro x hx
      obtain ⟨e, he, rfl⟩ := List.mem_map.1 hx
      rcases crash_execution home e with hsame | ⟨-, hfailed⟩
      · rw [hsame]
        exact h.fine e he
      · rw [hfailed]
        trivial
    · intro x hx ownerId howner
      obtain ⟨e, he, rfl⟩ := List.mem_map.1 hx
      rcases crash_execution home e with hsame | ⟨-, hfailed⟩
      · rw [hsame] at howner
        exact h.owners e he ownerId howner
      · rw [hfailed] at howner
        cases howner
    · intro i j x x' hx hx' ownerId howner howner'
      obtain ⟨e, he, rfl⟩ := Option.map_eq_some_iff.1 (List.getElem?_map.symm.trans hx)
      obtain ⟨e', he', rfl⟩ := Option.map_eq_some_iff.1 (List.getElem?_map.symm.trans hx')
      rcases crash_execution home e with hsame | ⟨-, hfailed⟩
      · rcases crash_execution home e' with hsame' | ⟨-, hfailed'⟩
        · rw [hsame] at howner
          rw [hsame'] at howner'
          exact h.distinct i j e e' he he' ownerId howner howner'
        · rw [hfailed'] at howner'
          cases howner'
      · rw [hfailed] at howner
        cases howner
    · intro x hx record result hseen hresult
      obtain ⟨e, he, rfl⟩ := List.mem_map.1 hx
      rcases crash_execution home e with hsame | ⟨hlive, hfailed⟩
      · rw [hsame] at hseen ⊢
        exact h.returned e he record result hseen hresult
      · rw [hfailed] at hseen
        exact (hlive result (h.returned e he record result hseen hresult)).elim
    · intro batch hbatch t ht
      obtain ⟨b, hb, rfl⟩ := List.mem_map.1 hbatch
      split_ifs at ht with hhome
      · cases ht
      · exact h.batches b hb t ht

end

section

variable [DecidableEq κ]

/-- A step of an execution replaces a record only where that one is not completed. -/
theorem Inv.keeps_perform (h : Inv fits w) (hmem : e ∈ w.executions)
    (hperforms : Performs fits w e w' e') {key : κ} {record : ActivityReconciliationRecord ι ρ}
    (hstore : w.store key = some record) (hcompleted : record.result.isSome = true) :
    w'.store key = some record := by
  have hput : ∀ next expected, w.store e.key = expected → (∀ r ∈ expected, r.result = none) →
      Function.update w.store e.key (some next) key = some record := by
    intro next expected hexpected hresult
    by_cases hkey : key = e.key
    · rw [hkey, hexpected] at hstore
      rw [hresult record hstore] at hcompleted
      cases hcompleted
    · rw [Function.update_of_ne hkey, hstore]
  have hfine := h.fine e hmem
  cases hperforms with
  | claims r phase hphase hnone hnext => exact hput r none hnone fun r' hr' => by cases hr'
  | reclaims r next phase hphase hold hnext =>
    rw [hphase] at hfine
    exact hput next (some r) hold fun r' hr' => by rw [← Option.some.inj hr']; exact hfine.1
  | completes expected completed result phase hphase hold hnext =>
    have hresult : expected.result = none := by
      rcases hphase with hphase | hphase
      · rw [hphase] at hfine
        exact hfine.1
      · rw [hphase] at hfine
        exact hfine.1
    refine hput completed (some expected) hold fun r' hr' => ?_
    rw [← Option.some.inj hr']
    exact hresult
  | _ => exact hstore

end

section

variable [DecidableEq κ] [DecidableEq ι] [DecidableEq ρ]

theorem Inv.keepsCompleted (h : Inv fits w) (event : Event κ ι ρ) :
    KeepsCompleted fits w event := by
  intro w' hstep key record hstore hcompleted
  cases event with
  | advance place outcome drawn now answer output =>
    obtain ⟨e, hplace, hstep⟩ := Option.bind_eq_some_iff.1 hstep
    obtain ⟨⟨v, e'⟩, hperform, hstep⟩ := Option.bind_eq_some_iff.1 hstep
    cases hstep
    exact h.keeps_perform (List.mem_of_getElem? hplace)
      (perform_performs hperform) hstore hcompleted
  | land place outcome =>
    obtain ⟨batch, hplace, hstep⟩ := Option.bind_eq_some_iff.1 hstep
    cases hstep
    obtain hsame | ⟨haccepted, hput⟩ := land_store w place batch outcome
    · rw [hsame, hstore]
    · rw [hput, putAll_of_ne fun t ht heq => ?_, hstore]
      have hexpected := haccepted t ht
      rw [heq, hstore] at hexpected
      rw [Option.some.inj hexpected,
        (h.batches batch (List.mem_of_getElem? hplace) t ht).1] at hcompleted
      cases hcompleted
  | _ =>
    cases hstep
    exact hstore

end

theorem inv_empty : Inv fits ({} : World κ ι ρ) where
  records :=
    { claimed := fun _ _ h => by cases h
      fits := fun _ _ _ h => by cases h
      newest := fun _ _ h => by cases h
      empty := fun _ _ _ h => by cases h
      chain := fun _ _ _ h => by cases h
      invoked := fun _ _ h => by cases h
      once := fun _ _ h => by cases h
      used := fun _ h => by cases h }
  fine := fun _ h => by cases h
  owners := fun _ h => by cases h
  distinct := fun i _ _ _ h => by simp at h
  returned := fun _ h => by cases h
  staged := fun _ h => by cases h
  batches := fun _ h => by cases h

section

variable [DecidableEq κ] [DecidableEq ι] [DecidableEq ρ]

/-- Whatever the interleaving: every invocation is made once and under a claim of its own, of two
invocations the one claimed later was claimed after the verifier allowed it, every execution that
reads a completed record returns its result, and a completed record stays. -/
theorem dispatch_verified (fits : ρ → Bool) (events : List (Event κ ι ρ)) :
    (reconciliationMachine fits).EveryState (fun w => VerifiedClaims w.log ∧ ReturnsRecorded w)
        {} events ∧
      (reconciliationMachine fits).EveryStep (KeepsCompleted fits) {} events := by
  constructor
  · refine Machine.EveryState.mono (fun w (hw : Inv fits w) =>
      ⟨hw.records.verifiedClaims, hw.returned⟩) ?_
    exact Machine.everyState_of_invariant (fun w event w' hw _ hstep => hw.step hstep) inv_empty
      (Machine.everyStep_true events _)
  · exact Machine.everyStep_of_invariant
      (fun w event w' (hw : Inv fits w) _ hstep => ⟨hw.step hstep, hw.keepsCompleted event⟩)
      inv_empty (Machine.everyStep_true events _)

/-- The execution in a place goes on and storage does what it asks. -/
def goOn (place drawn : Nat) (answer : ActivityVerificationResult Nat) : Event Nat Nat Nat :=
  .advance place .done drawn 0 answer 0

/-- An execution has claimed the record when another one reads it, is told by the verifier that
nothing is completed, claims and invokes; then the first one invokes. -/
def overtaken : List (Event Nat Nat Nat) :=
  [.call 0 0 0 1 true false, goOn 0 1 .invalid, goOn 0 0 .invalid,
    .call 0 0 0 1 true false, goOn 1 0 .invalid, goOn 1 2 .notCompleted, goOn 1 0 .invalid,
    goOn 1 0 .invalid, goOn 0 0 .invalid]

/-- The last invocation follows another one without a verification in between. -/
theorem overtaken_unverified :
    ¬ (reconciliationMachine fun _ : Nat => true).EveryState
      (fun w => VerifiedInBetween w.log) {} overtaken := by
  intro h
  have hverified := h.final 0 2 1 (by decide)
  revert hverified
  decide

end

end Weft.Reconciliation
