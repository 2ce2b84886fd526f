import Mathlib

/-! Executable labelled machines and their runs. A run is a list of labels; a label
that is not enabled ends it. `EveryState` and `EveryStep` speak about all the states
a run passes through and all the steps it takes. -/

namespace Weft.Lib

universe u v

/-- `step s a = none` says that `a` is not enabled in `s`. -/
structure Machine (σ : Type u) (α : Type v) where
  step : σ → α → Option σ

namespace Machine

variable {σ : Type u} {α : Type v} (M : Machine σ α)

def EveryState (P : σ → Prop) (s : σ) : List α → Prop
  | [] => P s
  | a :: as => P s ∧
      match M.step s a with
      | none => True
      | some t => EveryState P t as

/-- Every step that the run takes from a state `s` by a label `a` has `Q s a`. -/
def EveryStep (Q : σ → α → Prop) (s : σ) : List α → Prop
  | [] => True
  | a :: as =>
      match M.step s a with
      | none => True
      | some t => Q s a ∧ EveryStep Q t as

/-- Some step that the run takes from a state `s` by a label `a` has `Q s a`. -/
def SomeStep (Q : σ → α → Prop) (s : σ) : List α → Prop
  | [] => False
  | a :: as =>
      match M.step s a with
      | none => False
      | some t => Q s a ∨ SomeStep Q t as

/-- The state a run ends in: the last one before the first label that is not enabled. -/
def final (s : σ) : List α → σ
  | [] => s
  | a :: as =>
      match M.step s a with
      | none => s
      | some t => final t as

instance decidableEveryState (P : σ → Prop) [DecidablePred P] :
    (s : σ) → (as : List α) → Decidable (M.EveryState P s as)
  | s, [] => inferInstanceAs (Decidable (P s))
  | s, a :: as =>
      match h : M.step s a with
      | none => decidable_of_iff (P s) (by simp [EveryState, h])
      | some t =>
          have := decidableEveryState P t as
          decidable_of_iff (P s ∧ M.EveryState P t as) (by simp [EveryState, h])

instance decidableEveryStep (Q : σ → α → Prop) [∀ s a, Decidable (Q s a)] :
    (s : σ) → (as : List α) → Decidable (M.EveryStep Q s as)
  | _, [] => isTrue trivial
  | s, a :: as =>
      match h : M.step s a with
      | none => isTrue (by simp [EveryStep, h])
      | some t =>
          have := decidableEveryStep Q t as
          decidable_of_iff (Q s a ∧ M.EveryStep Q t as) (by simp [EveryStep, h])

variable {M}

theorem everyState_cons_none {P : σ → Prop} {s : σ} {a : α} {as : List α}
    (h : M.step s a = none) : M.EveryState P s (a :: as) ↔ P s := by
  simp [EveryState, h]

theorem everyState_cons_some {P : σ → Prop} {s t : σ} {a : α} {as : List α}
    (h : M.step s a = some t) :
    M.EveryState P s (a :: as) ↔ P s ∧ M.EveryState P t as := by
  simp [EveryState, h]

theorem everyStep_cons_none {Q : σ → α → Prop} {s : σ} {a : α} {as : List α}
    (h : M.step s a = none) : M.EveryStep Q s (a :: as) := by
  simp [EveryStep, h]

theorem everyStep_cons_some {Q : σ → α → Prop} {s t : σ} {a : α} {as : List α}
    (h : M.step s a = some t) :
    M.EveryStep Q s (a :: as) ↔ Q s a ∧ M.EveryStep Q t as := by
  simp [EveryStep, h]

theorem EveryState.head {P : σ → Prop} {s : σ} {as : List α}
    (h : M.EveryState P s as) : P s := by
  cases as with
  | nil => exact h
  | cons a as => exact h.1

theorem EveryState.final {P : σ → Prop} {as : List α} {s : σ}
    (h : M.EveryState P s as) : P (M.final s as) := by
  induction as generalizing s with
  | nil => exact h
  | cons a as ih =>
    cases hs : M.step s a with
    | none => simpa [Machine.final, hs] using h.head
    | some t =>
      have ht := ih ((everyState_cons_some hs).1 h).2
      simpa [Machine.final, hs] using ht

/-- What is reached step by step is where some run ends. -/
theorem exists_final_of_reflTransGen {s t : σ}
    (h : Relation.ReflTransGen (fun s t => ∃ a, M.step s a = some t) s t) :
    ∃ as, M.final s as = t := by
  induction h using Relation.ReflTransGen.head_induction_on with
  | refl => exact ⟨[], rfl⟩
  | head hstep _ ih =>
    obtain ⟨a, ha⟩ := hstep
    obtain ⟨as, has⟩ := ih
    exact ⟨a :: as, by simpa [Machine.final, ha] using has⟩

theorem EveryState.mono {P R : σ → Prop} {as : List α} {s : σ}
    (hPR : ∀ t, P t → R t) (h : M.EveryState P s as) : M.EveryState R s as := by
  induction as generalizing s with
  | nil => exact hPR s h
  | cons a as ih =>
    cases hs : M.step s a with
    | none => exact (everyState_cons_none hs).2 (hPR s h.head)
    | some t =>
      obtain ⟨hp, ht⟩ := (everyState_cons_some hs).1 h
      exact (everyState_cons_some hs).2 ⟨hPR s hp, ih ht⟩

/-- What agrees in the states that a run passes through holds in all of them or not in all. -/
theorem EveryState.congr {J P R : σ → Prop} {as : List α} {s : σ}
    (hJ : M.EveryState J s as) (hPR : ∀ t, J t → (P t ↔ R t)) :
    M.EveryState P s as ↔ M.EveryState R s as := by
  induction as generalizing s with
  | nil => exact hPR s hJ
  | cons a as ih =>
    cases hs : M.step s a with
    | none =>
      rw [everyState_cons_none hs, everyState_cons_none hs]
      exact hPR s hJ.head
    | some t =>
      obtain ⟨hJs, hJt⟩ := (everyState_cons_some hs).1 hJ
      rw [everyState_cons_some hs, everyState_cons_some hs, hPR s hJs, ih hJt]

theorem EveryStep.mono {Q R : σ → α → Prop} {as : List α} {s : σ}
    (hQR : ∀ t a, Q t a → R t a) (h : M.EveryStep Q s as) : M.EveryStep R s as := by
  induction as generalizing s with
  | nil => trivial
  | cons a as ih =>
    cases hs : M.step s a with
    | none => exact everyStep_cons_none hs
    | some t =>
      obtain ⟨hq, ht⟩ := (everyStep_cons_some hs).1 h
      exact (everyStep_cons_some hs).2 ⟨hQR s a hq, ih ht⟩

theorem everyStep_true (as : List α) (s : σ) : M.EveryStep (fun _ _ => True) s as := by
  induction as generalizing s with
  | nil => trivial
  | cons a as ih =>
    cases hs : M.step s a with
    | none => exact everyStep_cons_none hs
    | some t => exact (everyStep_cons_some hs).2 ⟨trivial, ih t⟩

/-- A condition on labels alone holds of every step where it holds of every label. -/
theorem everyStep_of_forall_mem {Q : α → Prop} {as : List α} (h : ∀ a ∈ as, Q a) (s : σ) :
    M.EveryStep (fun _ a => Q a) s as := by
  induction as generalizing s with
  | nil => trivial
  | cons a as ih =>
    cases hs : M.step s a with
    | none => exact everyStep_cons_none hs
    | some t =>
      refine (everyStep_cons_some hs).2 ⟨h a List.mem_cons_self, ih (fun b hb => ?_) t⟩
      exact h b (List.mem_cons_of_mem a hb)

theorem EveryStep.and {Q R : σ → α → Prop} {as : List α} {s : σ} (hQ : M.EveryStep Q s as)
    (hR : M.EveryStep R s as) : M.EveryStep (fun s a => Q s a ∧ R s a) s as := by
  induction as generalizing s with
  | nil => trivial
  | cons a as ih =>
    cases hs : M.step s a with
    | none => exact everyStep_cons_none hs
    | some t =>
      obtain ⟨hq, hqt⟩ := (everyStep_cons_some hs).1 hQ
      obtain ⟨hr, hrt⟩ := (everyStep_cons_some hs).1 hR
      exact (everyStep_cons_some hs).2 ⟨⟨hq, hr⟩, ih hqt hrt⟩

theorem EveryStep.take {Q : σ → α → Prop} {as : List α} {s : σ} (h : M.EveryStep Q s as) (n : Nat) :
    M.EveryStep Q s (as.take n) := by
  induction as generalizing s n with
  | nil =>
    rw [List.take_nil]
    exact h
  | cons a as ih =>
    cases n with
    | zero => trivial
    | succ n =>
      cases hs : M.step s a with
      | none => exact everyStep_cons_none hs
      | some t =>
        obtain ⟨hq, ht⟩ := (everyStep_cons_some hs).1 h
        exact (everyStep_cons_some hs).2 ⟨hq, ih ht n⟩

/-- The invariant rule, for runs whose steps all meet a side condition. -/
theorem everyState_of_invariant {I : σ → Prop} {ok : σ → α → Prop}
    (hstep : ∀ s a t, I s → ok s a → M.step s a = some t → I t)
    {as : List α} {s : σ} (hI : I s) (hok : M.EveryStep ok s as) :
    M.EveryState I s as := by
  induction as generalizing s with
  | nil => exact hI
  | cons a as ih =>
    cases hs : M.step s a with
    | none => exact (everyState_cons_none hs).2 hI
    | some t =>
      obtain ⟨hoka, hokt⟩ := (everyStep_cons_some hs).1 hok
      exact (everyState_cons_some hs).2 ⟨hI, ih (hstep s a t hI hoka hs) hokt⟩

/-- What an invariant gives about each single step holds of every step of a run. -/
theorem everyStep_of_invariant {I : σ → Prop} {ok Q : σ → α → Prop}
    (hstep : ∀ s a t, I s → ok s a → M.step s a = some t → I t ∧ Q s a)
    {as : List α} {s : σ} (hI : I s) (hok : M.EveryStep ok s as) :
    M.EveryStep Q s as := by
  induction as generalizing s with
  | nil => trivial
  | cons a as ih =>
    cases hs : M.step s a with
    | none => exact everyStep_cons_none hs
    | some t =>
      obtain ⟨hoka, hokt⟩ := (everyStep_cons_some hs).1 hok
      obtain ⟨hIt, hQ⟩ := hstep s a t hI hoka hs
      exact (everyStep_cons_some hs).2 ⟨hQ, ih hIt hokt⟩

/-- Where every step has `Q` or leads to a lower rank, a run that is longer than the rank it
begins with has a step with `Q`. -/
theorem someStep_of_rank {J : Nat → σ → Prop} {ok Q : σ → α → Prop}
    (htotal : ∀ s a, ∃ t, M.step s a = some t)
    (hstep : ∀ n s a t, J n s → ok s a → M.step s a = some t → Q s a ∨ ∃ m < n, J m t)
    {n : Nat} {s : σ} {as : List α} (hJ : J n s) (hok : M.EveryStep ok s as)
    (hlong : n < as.length) : M.SomeStep Q s as := by
  induction as generalizing n s with
  | nil => exact (Nat.not_lt_zero n hlong).elim
  | cons a as ih =>
    obtain ⟨t, ht⟩ := htotal s a
    obtain ⟨hoka, hokt⟩ := (everyStep_cons_some ht).1 hok
    simp only [SomeStep, ht]
    obtain hq | ⟨m, hm, hJt⟩ := hstep n s a t hJ hoka ht
    · exact .inl hq
    · refine .inr (ih hJt hokt ?_)
      rw [List.length_cons] at hlong
      omega

/-- Where a step keeps `I` exactly when it meets `ok`, so does a run. `J` is what the steps
may rely on as long as `I` holds, and `side` what is known of each of them. -/
theorem everyState_iff_everyStep_of {I J : σ → Prop} {side ok : σ → α → Prop}
    (hstep : ∀ s a t, J s → I s → side s a → M.step s a = some t → J t ∧ (I t ↔ ok s a))
    {as : List α} {s : σ} (hJ : J s) (hside : M.EveryStep side s as) :
    M.EveryState I s as ↔ I s ∧ M.EveryStep ok s as := by
  induction as generalizing s with
  | nil => exact ⟨fun h => ⟨h, trivial⟩, fun h => h.1⟩
  | cons a as ih =>
    cases hs : M.step s a with
    | none =>
      rw [everyState_cons_none hs]
      exact ⟨fun h => ⟨h, everyStep_cons_none hs⟩, fun h => h.1⟩
    | some t =>
      obtain ⟨hsidea, hsidet⟩ := (everyStep_cons_some hs).1 hside
      rw [everyState_cons_some hs, everyStep_cons_some hs]
      refine and_congr_right fun hI => ?_
      obtain ⟨hJt, hiff⟩ := hstep s a t hJ hI hsidea hs
      rw [ih hJt hsidet, hiff]

theorem everyState_iff_everyStep {I J : σ → Prop} {ok : σ → α → Prop}
    (hstep : ∀ s a t, J s → I s → M.step s a = some t → J t ∧ (I t ↔ ok s a))
    {as : List α} {s : σ} (hJ : J s) :
    M.EveryState I s as ↔ I s ∧ M.EveryStep ok s as :=
  everyState_iff_everyStep_of (fun s a t hs hI _ hst => hstep s a t hs hI hst) hJ
    (everyStep_true as s)

end Machine

end Weft.Lib
