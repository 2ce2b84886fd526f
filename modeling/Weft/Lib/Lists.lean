import Mathlib

/-! Lists of which no two elements meet a condition together, and lists with one place written. -/

namespace Weft.Lib

universe u v

variable {α : Type u} {β : Type v}

theorem countP_le_one_of_pairwise {p : α → Bool} {xs : List α}
    (h : xs.Pairwise fun x y => p x = true → p y = true → False) : xs.countP p ≤ 1 := by
  induction xs with
  | nil => simp
  | cons x xs ih =>
    obtain ⟨hx, hxs⟩ := List.pairwise_cons.1 h
    by_cases hp : p x = true
    · have hnone : xs.countP p = 0 := by
        rw [List.countP_eq_zero]
        exact fun y hy hpy => hx y hy hp hpy
      rw [List.countP_cons_of_pos hp, hnone]
    · rw [List.countP_cons_of_neg hp]
      exact ih hxs

variable {l : List α}

variable {x y : α}

/-- What a list holds after one place was written. -/
theorem getElem?_set_cases {i j : Nat} (h : (l.set i x)[j]? = some y) :
    j = i ∧ y = x ∨ j ≠ i ∧ l[j]? = some y := by
  rw [List.getElem?_set] at h
  split_ifs at h with hij
  · exact .inl ⟨hij.symm, (Option.some.inj h).symm⟩
  · exact .inr ⟨fun heq => hij heq.symm, h⟩

/-- What a partial function has after one place was written. -/
theorem update_some_cases [DecidableEq α] {f : α → Option β} {a b : α} {v : Option β} {y : β}
    (h : Function.update f a v b = some y) : b = a ∧ v = some y ∨ b ≠ a ∧ f b = some y := by
  by_cases hb : b = a
  · subst hb
    rw [Function.update_self] at h
    exact .inl ⟨rfl, h⟩
  · rw [Function.update_of_ne hb] at h
    exact .inr ⟨hb, h⟩

variable {i : Nat}

theorem getElem?_concat_cases (h : (l ++ [x])[i]? = some y) :
    i < l.length ∧ l[i]? = some y ∨ i = l.length ∧ y = x := by
  rw [List.getElem?_append] at h
  split_ifs at h with hlt
  · exact .inl ⟨hlt, h⟩
  · rw [List.getElem?_singleton] at h
    split_ifs at h with hzero
    exact .inr ⟨by omega, (Option.some.inj h).symm⟩

theorem mem_set_cases (h : y ∈ l.set i x) : y = x ∨ ∃ j, j ≠ i ∧ l[j]? = some y := by
  obtain ⟨j, hj⟩ := List.getElem?_of_mem h
  obtain ⟨-, heq⟩ | hother := getElem?_set_cases hj
  · exact .inl heq
  · exact .inr ⟨j, hother⟩

/-- Elements apart in their keys stay apart when one is replaced by an element apart from the
rest. -/
theorem apart_set {γ δ : Type*} {f : α → Option γ} {key : γ → δ} {place : Nat} {x : α}
    (h : ∀ (i j : Nat) (a b : α), l[i]? = some a → l[j]? = some b →
      ∀ r ∈ f a, ∀ r' ∈ f b, key r = key r' → i = j)
    (hx : ∀ (i : Nat) (a : α), i ≠ place → l[i]? = some a →
      ∀ r ∈ f a, ∀ r' ∈ f x, key r ≠ key r') (i j : Nat) (a b : α)
    (ha : (l.set place x)[i]? = some a) (hb : (l.set place x)[j]? = some b) :
    ∀ r ∈ f a, ∀ r' ∈ f b, key r = key r' → i = j := by
  intro r hr r' hr' heq
  obtain ⟨rfl, rfl⟩ | ⟨hi, ha'⟩ := getElem?_set_cases ha
  · obtain ⟨rfl, rfl⟩ | ⟨hj, hb'⟩ := getElem?_set_cases hb
    · rfl
    · exact absurd heq.symm (hx j b hj hb' r' hr' r hr)
  · obtain ⟨rfl, rfl⟩ | ⟨-, hb'⟩ := getElem?_set_cases hb
    · exact absurd heq (hx i a hi ha' r hr r' hr')
    · exact h i j a b ha' hb' r hr r' hr' heq

/-- Writing one place exchanges what that place has. -/
theorem flatMap_set_perm {f : α → List β} (h : l[i]? = some x) :
    (f y ++ l.flatMap f).Perm (f x ++ (l.set i y).flatMap f) := by
  induction l generalizing i with
  | nil => cases h
  | cons z l ih =>
    cases i with
    | zero =>
      cases h
      rw [List.set_cons_zero, List.flatMap_cons, List.flatMap_cons, ← List.append_assoc,
        ← List.append_assoc]
      exact List.perm_append_comm.append_right _
    | succ i =>
      rw [List.set_cons_succ, List.flatMap_cons, List.flatMap_cons]
      exact (List.perm_append_comm_assoc _ _ _).trans
        (((ih h).append_left (f z)).trans (List.perm_append_comm_assoc _ _ _))

/-- A sum gets smaller with one of its terms. -/
theorem sum_map_set_lt (hi : l[i]? = some x) {f : α → Nat} (hlt : f y < f x) :
    ((l.set i y).map f).sum < (l.map f).sum := by
  induction l generalizing i with
  | nil => cases hi
  | cons z l ih =>
    cases i with
    | zero =>
      cases hi
      simp only [List.set_cons_zero, List.map_cons, List.sum_cons]
      omega
    | succ i =>
      have hrest := ih (i := i) hi
      simp only [List.set_cons_succ, List.map_cons, List.sum_cons]
      omega

theorem exists_left_of_forall₂ {R : α → β → Prop} {l' : List β} (h : List.Forall₂ R l l') {y : β}
    (hy : y ∈ l') : ∃ x ∈ l, R x y := by
  induction h with
  | nil => cases hy
  | cons hxy _ ih =>
    rcases List.mem_cons.1 hy with rfl | hy
    · exact ⟨_, List.mem_cons_self, hxy⟩
    · obtain ⟨x, hx, hR⟩ := ih hy
      exact ⟨x, List.mem_cons_of_mem _ hx, hR⟩

theorem exists_right_of_forall₂ {R : α → β → Prop} {l' : List β} (h : List.Forall₂ R l l') {x : α}
    (hx : x ∈ l) : ∃ y ∈ l', R x y := by
  obtain ⟨y, hy, hR⟩ := exists_left_of_forall₂ h.flip hx
  exact ⟨y, hy, hR⟩

theorem eq_of_map_eq {f : α → β} {l l' : List α}
    (h : ∀ a ∈ l, ∀ b ∈ l', f a = f b → a = b) (hmap : l.map f = l'.map f) : l = l' := by
  induction l generalizing l' with
  | nil => exact (List.map_eq_nil_iff.1 hmap.symm).symm
  | cons a l ih =>
    cases l' with
    | nil => exact absurd hmap (List.cons_ne_nil _ _)
    | cons b l' =>
      obtain ⟨hab, hrest⟩ := List.cons.inj hmap
      rw [h a List.mem_cons_self b List.mem_cons_self hab,
        ih (fun c hc d hd => h c (List.mem_cons_of_mem a hc) d (List.mem_cons_of_mem b hd)) hrest]

end Weft.Lib

/-! Lists in which the first element that meets a condition is replaced. -/

namespace Weft.Lib

universe u

variable {α : Type u}

/-- `none` if no element meets the condition. -/
def replaceFirst (p : α → Bool) (x : α) : List α → Option (List α)
  | [] => none
  | y :: ys => if p y then some (x :: ys) else (replaceFirst p x ys).map (y :: ·)

theorem replaceFirst_eq_none {p : α → Bool} {x : α} {xs : List α} :
    replaceFirst p x xs = none ↔ ∀ y ∈ xs, p y = false := by
  induction xs with
  | nil => simp [replaceFirst]
  | cons y ys ih =>
    rw [replaceFirst]
    split_ifs with hy
    · simp [hy]
    · simp [hy, ih]

theorem replaceFirst_eq_some {p : α → Bool} {x : α} {xs zs : List α}
    (h : replaceFirst p x xs = some zs) :
    ∃ before y after, xs = before ++ y :: after ∧ p y = true ∧ (∀ z ∈ before, p z = false) ∧
      zs = before ++ x :: after := by
  induction xs generalizing zs with
  | nil => cases h
  | cons y ys ih =>
    rw [replaceFirst] at h
    split_ifs at h with hy
    · cases h
      exact ⟨[], y, ys, rfl, hy, by simp, rfl⟩
    · obtain ⟨ws, hws, rfl⟩ := Option.map_eq_some_iff.1 h
      obtain ⟨before, y', after, rfl, hy', hbefore, rfl⟩ := ih hws
      refine ⟨y :: before, y', after, rfl, hy', ?_, rfl⟩
      intro z hz
      rcases List.mem_cons.1 hz with rfl | hz
      · exact Bool.eq_false_iff.2 hy
      · exact hbefore z hz

end Weft.Lib

/-! Collections that take an element in place of one that is the same as it, and put a new one
last. -/

namespace Weft.Lib

universe u

variable {α : Type u} (same : α → α → Bool) (replace : α → α → α)

def upsert (xs : List α) (x : α) : List α :=
  if xs.any (same · x) then xs.map fun y => if same y x then replace y x else y
  else xs ++ [x]

/-- The elements one after another. -/
def collect (xs : List α) : List α := xs.foldl (upsert same replace) []

variable {same replace}

theorem upsert_of_forall {xs : List α} {x : α} (h : ∀ y ∈ xs, same y x = false) :
    upsert same replace xs x = xs ++ [x] := by
  have hany : xs.any (same · x) = false := by
    rw [List.any_eq_false]
    intro y hy
    simp [h y hy]
  rw [upsert, hany]
  rfl

theorem foldl_upsert_of_pairwise {acc xs : List α}
    (h : (acc ++ xs).Pairwise fun y x => same y x = false) :
    xs.foldl (upsert same replace) acc = acc ++ xs := by
  induction xs generalizing acc with
  | nil => exact (List.append_nil acc).symm
  | cons x xs ih =>
    have hx : ∀ y ∈ acc, same y x = false := by
      intro y hy
      exact (List.pairwise_append.1 h).2.2 y hy x List.mem_cons_self
    have hmore : acc ++ x :: xs = acc ++ [x] ++ xs := by simp
    rw [List.foldl_cons, upsert_of_forall hx, ih (hmore ▸ h), ← hmore]

/-- Elements of which no two are the same are all kept, in their order. -/
theorem collect_of_pairwise {xs : List α} (h : xs.Pairwise fun y x => same y x = false) :
    collect same replace xs = xs :=
  foldl_upsert_of_pairwise h

/-! Lists that are sorted by a relation. -/

section sorted

variable {l : List α} {r s : α → α → Prop} {p : α → Bool} {k : α}

/-- What a list begins with, as long as a condition holds. -/
theorem mem_takeWhile_iff (hsorted : l.Pairwise r) (hasymm : ∀ a b, r a b → ¬ r b a) :
    k ∈ l.takeWhile p ↔ k ∈ l ∧ p k = true ∧ ∀ j ∈ l, r j k → p j = true := by
  induction l with
  | nil => simp
  | cons a l ih =>
    obtain ⟨ha, hl⟩ := List.pairwise_cons.1 hsorted
    by_cases hp : p a = true
    · rw [List.takeWhile_cons_of_pos hp, List.mem_cons, ih hl, List.mem_cons]
      constructor
      · rintro (rfl | ⟨hk, hpk, hbefore⟩)
        · refine ⟨.inl rfl, hp, fun j hj hjk => ?_⟩
          obtain rfl | hj := List.mem_cons.1 hj
          · exact hp
          · exact (hasymm _ _ hjk (ha j hj)).elim
        · refine ⟨.inr hk, hpk, fun j hj hjk => ?_⟩
          obtain rfl | hj := List.mem_cons.1 hj
          · exact hp
          · exact hbefore j hj hjk
      · rintro ⟨hk, hpk, hbefore⟩
        exact hk.imp_right fun hk => ⟨hk, hpk, fun j hj => hbefore j (List.mem_cons_of_mem a hj)⟩
    · rw [List.takeWhile_cons_of_neg hp]
      refine iff_of_false List.not_mem_nil ?_
      rintro ⟨hk, hpk, hbefore⟩
      obtain rfl | hk := List.mem_cons.1 hk
      · exact hp hpk
      · exact hp (hbefore a List.mem_cons_self (ha k hk))

/-- The first elements in a row that meet a condition. -/
theorem mem_run_iff (hsorted : l.Pairwise r) (hasymm : ∀ a b, r a b → ¬ r b a) :
    k ∈ (l.dropWhile fun a => !p a).takeWhile p ↔
      k ∈ l ∧ p k = true ∧ ∀ i ∈ l, ∀ j ∈ l, p i = true → r i j → r j k → p j = true := by
  induction l with
  | nil => simp
  | cons a l ih =>
    obtain ⟨ha, hl⟩ := List.pairwise_cons.1 hsorted
    have hfirst : ∀ j ∈ a :: l, ¬ r j a := by
      intro j hj hja
      obtain rfl | hj := List.mem_cons.1 hj
      · exact hasymm _ _ hja hja
      · exact hasymm _ _ hja (ha j hj)
    by_cases hp : p a = true
    · rw [List.dropWhile_cons_of_neg (by simp [hp]), mem_takeWhile_iff hsorted hasymm]
      refine and_congr_right fun hk => and_congr_right fun hpk => ⟨fun h i _ j hj _ _ => h j hj, ?_⟩
      intro h j hj hjk
      obtain rfl | hj' := List.mem_cons.1 hj
      · exact hp
      · exact h a List.mem_cons_self j hj hp (ha j hj') hjk
    · rw [List.dropWhile_cons_of_pos (by simp [hp]), ih hl]
      constructor
      · rintro ⟨hk, hpk, h⟩
        refine ⟨List.mem_cons_of_mem a hk, hpk, fun i hi j hj hpi hij hjk => ?_⟩
        obtain rfl | hil := List.mem_cons.1 hi
        · exact (hp hpi).elim
        · obtain rfl | hjl := List.mem_cons.1 hj
          · exact (hfirst i hi hij).elim
          · exact h i hil j hjl hpi hij hjk
      · rintro ⟨hk, hpk, h⟩
        refine ⟨(List.mem_cons.1 hk).resolve_left fun heq => hp (heq ▸ hpk), hpk, ?_⟩
        exact fun i hi j hj => h i (List.mem_cons_of_mem a hi) j (List.mem_cons_of_mem a hj)

/-- Two sorted lists, the first without an element that the second lacks, begin alike where each
element at the beginning of the second is in the first, with the same elements before it. -/
theorem take_eq_take_iff {l' : List α} (hr : l.Pairwise r) (hs : l'.Pairwise s)
    (hrasymm : ∀ a b, r a b → ¬ r b a) (hsasymm : ∀ a b, s a b → ¬ s b a) (hsub : l ⊆ l')
    (n : Nat) : l.take n = l'.take n ↔ ∀ k ∈ l'.take n, k ∈ l ∧ ∀ j ∈ l, r j k ↔ s j k := by
  induction n generalizing l l' with
  | zero => simp
  | succ n ih =>
    cases l' with
    | nil => simp [List.subset_nil.1 hsub]
    | cons y l' =>
      cases l with
      | nil =>
        rw [List.take_nil, List.take_succ_cons]
        exact iff_of_false nofun fun h => List.not_mem_nil (h y List.mem_cons_self).1
      | cons x l =>
        obtain ⟨hx, hl⟩ := List.pairwise_cons.1 hr
        obtain ⟨hy, hl'⟩ := List.pairwise_cons.1 hs
        have hsub' : x = y → l ⊆ l' := by
          rintro rfl a ha
          refine (List.mem_cons.1 (hsub (List.mem_cons_of_mem x ha))).resolve_left ?_
          rintro rfl
          exact hrasymm _ _ (hx a ha) (hx a ha)
        simp only [List.take_succ_cons, List.cons.injEq]
        constructor
        · rintro ⟨rfl, hrest⟩ k hk
          have hrest' := (ih hl hl' (hsub' rfl)).1 hrest
          obtain rfl | hk := List.mem_cons.1 hk
          · refine ⟨List.mem_cons_self, fun j hj => iff_of_false ?_ ?_⟩
            · obtain rfl | hj := List.mem_cons.1 hj
              · exact fun h => hrasymm _ _ h h
              · exact fun h => hrasymm _ _ h (hx j hj)
            · obtain rfl | hj := List.mem_cons.1 hj
              · exact fun h => hsasymm _ _ h h
              · exact fun h => hsasymm _ _ h (hy j (hsub' rfl hj))
          · obtain ⟨hkl, hk'⟩ := hrest' k hk
            refine ⟨List.mem_cons_of_mem x hkl, fun j hj => ?_⟩
            obtain rfl | hj := List.mem_cons.1 hj
            · exact iff_of_true (hx k hkl) (hy k (hsub' rfl hkl))
            · exact hk' j hj
        · intro h
          obtain ⟨hyl, hordered⟩ := h y List.mem_cons_self
          have hxy : x = y := by
            by_contra hne
            have hbefore := (hordered x List.mem_cons_self).1
              (hx y ((List.mem_cons.1 hyl).resolve_left (Ne.symm hne)))
            have hxl := (List.mem_cons.1 (hsub List.mem_cons_self)).resolve_left hne
            exact hsasymm x y hbefore (hy x hxl)
          subst hxy
          refine ⟨rfl, (ih hl hl' (hsub' rfl)).2 fun k hk => ?_⟩
          obtain ⟨hkl, hk'⟩ := h k (List.mem_cons_of_mem x hk)
          refine ⟨(List.mem_cons.1 hkl).resolve_left ?_, fun j hj =>
            hk' j (List.mem_cons_of_mem x hj)⟩
          rintro rfl
          exact hsasymm _ _ (hy k (List.mem_of_mem_take hk)) (hy k (List.mem_of_mem_take hk))

end sorted
end Weft.Lib

/-! Association lists: looking up a key in a list of pairs that was filtered by its keys, or made of
two lists. -/

namespace Weft.Lib

variable {κ α : Type} [BEq κ] [LawfulBEq κ]

end Weft.Lib
