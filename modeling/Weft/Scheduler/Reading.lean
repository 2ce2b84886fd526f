import Weft.Scheduler.Tick

/-! How far a tick reads: each source up to its limit, in key order and without leaving out a key
that is there. -/

namespace Weft.Scheduler
open Weft.Js Weft.Storage Weft.Lib

universe v

variable {V : Type v} {codec : TimerCodec V} {R : SourceName → JsString × V → Prop} {now : Nat}
  {store : Store V}
variable {scheduler : SchedulerOptions V} {callback : Callback V} {s : Tick V}

/-! ## The end of the loop -/

def TimerSource.left (source : TimerSource V) : Nat :=
  source.budget + if source.next.isSome then 1 else 0

theorem Advanced.left_le {bound : Option JsString} {source source' : TimerSource V}
    (h : Advanced codec R now store bound source source') : source'.left ≤ source.budget := by
  obtain ⟨-, ⟨hnone, hbudget, -⟩ | ⟨row, entry, -, hbudget, hsome, -⟩⟩ := h
  · simp [TimerSource.left, hnone, hbudget]
  · simp [TimerSource.left, hsome, hbudget]

/-- The loop goes on until nothing is left to take or the scheduler is stopped. -/
theorem Merged.processTimers_ended (h : Merged scheduler R now s)
    (hcallback : callback.KeepsRows R) {fuel : Nat}
    (hfuel : (s.sources.map TimerSource.left).sum ≤ fuel) :
    (Weft.Scheduler.processTimers scheduler callback now fuel s).stopped = true ∨
      ∀ source ∈ (Weft.Scheduler.processTimers scheduler callback now fuel s).sources,
        source.next = none := by
  induction fuel generalizing s with
  | zero =>
    right
    intro source hsource
    have hzero : source.left = 0 := by
      have hle := List.le_sum_of_mem (List.mem_map_of_mem (f := TimerSource.left) hsource)
      simp only [Weft.Scheduler.processTimers] at hle
      omega
    by_contra hne
    rw [← ne_eq, ← Option.isSome_iff_ne_none] at hne
    simp [TimerSource.left, hne] at hzero
  | succ fuel ih =>
    unfold Weft.Scheduler.processTimers
    have hselected := selectNextTimerSource_selected scheduler.localeCompare s.sources
    split
    · rename_i hselect
      rw [hselect] at hselected
      exact .inr hselected
    · rename_i i timer hselect
      rw [hselect] at hselected
      split_ifs with hstopped
      · exact .inl hstopped
      · obtain ⟨⟨source, hi, -⟩, -⟩ := hselected
        simp only [hi]
        obtain ⟨hnext, hmerged⟩ := h.take hcallback hselect hi
        obtain ⟨p, source', -, -, -, heq, -, -, -, hadvanced⟩ :=
          h.takeTimer_cases hcallback hi hnext
        refine ih hmerged ?_
        have hsources : (takeTimer scheduler callback now s i source timer).sources =
            s.sources.set i source' := by rw [heq]
        have hlt : source'.left < source.left := by
          have hle := hadvanced.left_le
          simp only [TimerSource.left, hnext] at hle ⊢
          simp only [Option.isSome_some, if_true]
          omega
        have hsum := sum_map_set_lt hi (f := TimerSource.left) hlt
        show ((takeTimer scheduler callback now s i source timer).sources.map
          TimerSource.left).sum ≤ fuel
        rw [hsources]
        omega

variable {state : State V}

theorem startTick_left (hR : OfTimers scheduler.codec R) (hstored : RowsStored R state.store) :
    ((startTick scheduler now state).sources.map TimerSource.left).sum ≤
      SourceName.all.length * scanLimit state := by
  obtain ⟨sources, heq, hforall⟩ := startTick_cases now hR hstored
  rw [heq]
  have hle : ∀ n ∈ sources.map TimerSource.left, n ≤ scanLimit state := by
    intro n hn
    obtain ⟨source', hsource', rfl⟩ := List.mem_map.1 hn
    obtain ⟨source, hsource, hadvanced⟩ := exists_left_of_forall₂ hforall hsource'
    obtain ⟨name, -, rfl⟩ := List.mem_map.1 hsource
    exact hadvanced.left_le
  have hlength : (sources.map TimerSource.left).length = SourceName.all.length := by
    rw [List.length_map, ← hforall.length_eq, createTimerSources, List.length_map]
  have hsum := List.sum_le_card_nsmul _ _ hle
  rw [hlength, smul_eq_mul] at hsum
  exact hsum

theorem runTick_ended (now : Nat) (hR : OfTimers scheduler.codec R)
    (hstored : RowsStored R state.store) (hcallback : callback.KeepsRows R) :
    (runTick scheduler callback now state).stopped = true ∨
      ∀ source ∈ (runTick scheduler callback now state).sources, source.next = none :=
  (Merged.start hR hstored).processTimers_ended hcallback (startTick_left hR hstored)

/-! ## What is read -/

def takenFrom (name : SourceName) (processed : List (Processed V)) : List (Processed V) :=
  processed.filter fun p => p.source = name

/-- A source takes no more than its limit. -/
def Within (limit : Nat) (s : Tick V) : Prop :=
  ∀ source ∈ s.sources, source.left + (takenFrom source.name s.processed).length ≤ limit

/-- The source has not yet come to the key, or its limit is used up. -/
def TimerSource.Pending (k : JsString) (limit taken : Nat) (source : TimerSource V) : Prop :=
  (∃ timer ∈ source.next, (timer.key = k ∨ timer.key < k ∧ source.cursor.Awaits k) ∧
    source.left + taken = limit) ∨ source.next = none ∧ taken = limit

/-- The key was taken, or only keys before it were taken from its source. -/
def Covers (name : SourceName) (k : JsString) (limit : Nat) (s : Tick V) : Prop :=
  (∃ p ∈ s.processed, p.source = name ∧ p.timer.key = k) ∨
    (∀ p ∈ s.processed, p.source = name → p.timer.key < k) ∧
      ∃ source ∈ s.sources, source.name = name ∧
        source.Pending k limit (takenFrom name s.processed).length

theorem takenFrom_append (name : SourceName) (processed : List (Processed V)) (p : Processed V) :
    (takenFrom name (processed ++ [p])).length =
      (takenFrom name processed).length + if p.source = name then 1 else 0 := by
  rw [takenFrom, List.filter_append, List.length_append, ← takenFrom]
  congr 1
  split_ifs with hp
  · simp [hp]
  · simp [hp]

variable {source : TimerSource V} {timer : ScannedTimerEntry}

theorem Merged.within_take (h : Merged scheduler R now s) (hcallback : callback.KeepsRows R)
    {i : Nat} (hi : s.sources[i]? = some source) (hnext : source.next = some timer) {limit : Nat}
    (hwithin : Within limit s) :
    Within limit (takeTimer scheduler callback now s i source timer) := by
  obtain ⟨p, source', hsource, htimer, -, heq, hprocessed, -, -, hadvanced⟩ :=
    h.takeTimer_cases hcallback hi hnext
  intro other hother
  have hbefore := hwithin source (List.mem_of_getElem? hi)
  rw [heq] at hother ⊢
  show other.left + (takenFrom other.name (processSelectedTimer scheduler callback now s
    source.name timer).processed).length ≤ limit
  rw [hprocessed, takenFrom_append, hsource]
  obtain rfl | ⟨j, hne, hj⟩ := mem_set_cases hother
  · have hle := hadvanced.left_le
    rw [hadvanced.1, if_pos rfl]
    simp only [TimerSource.left, hnext, Option.isSome_some, if_true] at hbefore hle ⊢
    omega
  · rw [if_neg fun heq' => h.name_ne hi hj hne heq'.symm]
    exact hwithin other (List.mem_of_getElem? hj)

/-- A key that is still in the store is not passed over. -/
theorem Merged.covers_take (h : Merged scheduler R now s) (hcallback : callback.KeepsRows R)
    {i : Nat} (hi : s.sources[i]? = some source) (hnext : source.next = some timer)
    {name : SourceName} {k : JsString} {limit : Nat} (hpre : name.family <+: k)
    (hmatch : matchesScanOptions k (dueOptions name now) = true)
    (hpresent : ((takeTimer scheduler callback now s i source timer).store.get k).isSome)
    (hcovers : Covers name k limit s) :
    Covers name k limit (takeTimer scheduler callback now s i source timer) := by
  obtain ⟨p, source', hsource, htimer, hstored, heq, hprocessed, hstore, -, hadvanced⟩ :=
    h.takeTimer_cases hcallback hi hnext
  have hstill : (p.store.get k).isSome := by
    rw [heq] at hpresent
    rw [← hstore]
    exact hpresent
  rw [heq]
  show (∃ q ∈ (processSelectedTimer scheduler callback now s source.name timer).processed, _) ∨
    (∀ q ∈ (processSelectedTimer scheduler callback now s source.name timer).processed, _) ∧
      ∃ other ∈ s.sources.set i source', other.name = name ∧ other.Pending k limit (takenFrom name
        (processSelectedTimer scheduler callback now s source.name timer).processed).length
  rw [hprocessed]
  obtain ⟨q, hq, hqk⟩ | ⟨hbefore, other, hother, hname, hpending⟩ := hcovers
  · exact .inl ⟨q, List.mem_append_left _ hq, hqk⟩
  obtain ⟨j, hj⟩ := List.getElem?_of_mem hother
  have hlt : i < s.sources.length := (List.getElem?_eq_some_iff.1 hi).1
  rw [takenFrom_append, hsource]
  by_cases hij : j = i
  · subst hij
    obtain rfl := Option.some.inj (hj.symm.trans hi)
    have hnew : source' ∈ s.sources.set j source' := List.mem_set hlt _
    obtain ⟨timer', htimer', hwhere, hleft⟩ | ⟨hnone, -⟩ := hpending
    · obtain rfl := Option.some.inj (hnext.symm.trans htimer')
      obtain hkey | ⟨hkey, hawaits⟩ := hwhere
      · exact .inl ⟨p, by simp, hsource.trans hname, htimer ▸ hkey⟩
      · right
        refine ⟨fun q hq hqname => ?_, source', hnew, hadvanced.1.trans hname, ?_⟩
        · rcases List.mem_append.1 hq with hq | hq
          · exact hbefore q hq hqname
          · rwa [List.mem_singleton.1 hq, htimer]
        · obtain ⟨v, hget⟩ := Option.isSome_iff_exists.1 hstill
          subst hname
          obtain ⟨-, hfrom⟩ := h.heads other hother timer hnext
          obtain ⟨row, cursor, hcursor, hrow⟩ := ScanCursor.awaits_next other.name.family_last
            (by decide) rfl rfl hfrom hawaits hget hpre hmatch
          rw [if_pos rfl]
          simp only [TimerSource.left, hnext, Option.isSome_some, if_true] at hleft
          obtain ⟨-, ⟨hnone, -, hbudget | hended⟩ | ⟨row', entry, hcursor', hbudget, hsome, -⟩⟩ :=
            hadvanced
          · exact .inr ⟨hnone, by omega⟩
          · rw [hended] at hcursor
            cases hcursor
          · obtain ⟨rfl, rfl⟩ := Prod.mk.inj (Option.some.inj (hcursor.symm.trans hcursor'))
            refine .inl ⟨_, hsome, hrow, ?_⟩
            simp only [TimerSource.left, hsome, Option.isSome_some, if_true]
            omega
    · rw [hnext] at hnone
      cases hnone
  · have hdiffers : source.name ≠ name := by
      rw [← hname]
      exact (h.name_ne hi hj hij).symm
    right
    refine ⟨fun q hq hqname => ?_, other, ?_, hname, ?_⟩
    · rcases List.mem_append.1 hq with hq | hq
      · exact hbefore q hq hqname
      · rw [List.mem_singleton.1 hq] at hqname
        exact (hdiffers (hsource.symm.trans hqname)).elim
    · exact List.mem_of_getElem? (by rw [List.getElem?_set_ne (Ne.symm hij)]; exact hj)
    · rwa [if_neg hdiffers]

theorem within_start (hR : OfTimers scheduler.codec R) (hstored : RowsStored R state.store) :
    Within (scanLimit state) (startTick scheduler now state) := by
  obtain ⟨sources, heq, hforall⟩ := startTick_cases now hR hstored
  rw [heq]
  intro source' hsource'
  obtain ⟨source, hsource, hadvanced⟩ := exists_left_of_forall₂ hforall hsource'
  obtain ⟨name, -, rfl⟩ := List.mem_map.1 hsource
  exact hadvanced.left_le

theorem covers_start (hR : OfTimers scheduler.codec R) (hstored : RowsStored R state.store)
    (name : SourceName) {k : JsString} {v : V} (hget : state.store.get k = some v)
    (hpre : name.family <+: k) (hmatch : matchesScanOptions k (dueOptions name now) = true) :
    Covers name k (scanLimit state) (startTick scheduler now state) := by
  obtain ⟨sources, heq, hforall⟩ := startTick_cases now hR hstored
  rw [heq]
  have hmem : name ∈ SourceName.all := by cases name <;> decide
  obtain ⟨source', hsource', hname, hcases⟩ := exists_right_of_forall₂ hforall
    (List.mem_map_of_mem hmem)
  refine .inr ⟨by simp, source', hsource', hname, ?_⟩
  have hawaits := ScanCursor.awaits_openScan name.family_last (by decide) rfl rfl scheduler.mode
    hget hpre hmatch
  have hfrom := from_createTimerSources scheduler now hstored _ (List.mem_map_of_mem hmem)
  obtain ⟨row, cursor, hcursor, hrow⟩ := ScanCursor.awaits_next name.family_last (by decide) rfl rfl
    hfrom hawaits hget hpre hmatch
  obtain ⟨hnone, -, hbudget | hended⟩ | ⟨row', entry, hcursor', hbudget, hsome, -⟩ := hcases
  · exact .inr ⟨hnone, hbudget.symm⟩
  · rw [hended] at hcursor
    cases hcursor
  · obtain ⟨rfl, rfl⟩ := Prod.mk.inj (Option.some.inj (hcursor.symm.trans hcursor'))
    refine .inl ⟨_, hsome, hrow, ?_⟩
    simp only [TimerSource.left, hsome, Option.isSome_some, if_true]
    exact hbudget.symm

theorem takeTimer_store_cases (h : Merged scheduler R now s) (hcallback : callback.KeepsRows R)
    {i : Nat} (hi : s.sources[i]? = some source) (hnext : source.next = some timer) :
    (takeTimer scheduler callback now s i source timer).store = s.store ∨
      (takeTimer scheduler callback now s i source timer).store =
        callback.effect timer s.store := by
  obtain ⟨p, source', -, -, -, heq, -, -⟩ := h.takeTimer_cases hcallback hi hnext
  rw [heq]
  obtain ⟨q, -, -, -, -, hstore, -, hcases⟩ :=
    processSelectedTimer_cases scheduler callback now s source.name timer
  obtain ⟨-, -, hq, -⟩ | ⟨-, -, hq, -⟩ := hcases
  · exact .inl (hstore.trans hq)
  · exact .inr (hstore.trans hq)

section

variable {state : State V} (hR : OfTimers scheduler.codec R) (hstored : RowsStored R state.store)
  (hcallback : callback.KeepsRows R)
include hR hstored hcallback

theorem runTick_merged (now : Nat) :
    Merged scheduler R now (runTick scheduler callback now state) :=
  (Merged.start hR hstored).processTimers hcallback _

theorem runTick_within (now : Nat) : Merged scheduler R now (runTick scheduler callback now state) ∧
      Within (scanLimit state) (runTick scheduler callback now state) := by
  refine processTimers_induction (P := fun s => Merged scheduler R now s ∧
    Within (scanLimit state) s)
    ?_ _ ⟨Merged.start hR hstored, within_start hR hstored⟩
  rintro s i timer source ⟨hmerged, hwithin⟩ - hselect hi
  obtain ⟨hnext, htake⟩ := hmerged.take hcallback hselect hi
  exact ⟨htake, hmerged.within_take hcallback hi hnext hwithin⟩

/-- At most as many timers as the limit says are taken from a source. -/
theorem length_takenFrom_le (name : SourceName) :
    (takenFrom name (runTick scheduler callback now state).processed).length ≤ scanLimit state := by
  obtain ⟨hmerged, hwithin⟩ := runTick_within hR hstored hcallback now
  have hmem : name ∈ (runTick scheduler callback now state).sources.map TimerSource.name := by
    rw [hmerged.names]
    cases name <;> decide
  obtain ⟨source, hsource, rfl⟩ := List.mem_map.1 hmem
  have hle := hwithin source hsource
  omega

/-- A due key that stays in the store while the callbacks run is taken, unless the limit of its
source is used up with keys before it. -/
theorem runTick_covers {name : SourceName} {k : JsString}
    (hpre : name.family <+: k) (hmatch : matchesScanOptions k (dueOptions name now) = true)
    (hshrink : ∀ timer store, ((callback.effect timer store).get k).isSome → (store.get k).isSome)
    (hpresent : ((runTick scheduler callback now state).store.get k).isSome)
    (hrunning : (runTick scheduler callback now state).stopped = false) :
    (∃ p ∈ (runTick scheduler callback now state).processed, p.source = name ∧ p.timer.key = k) ∨
      (∀ p ∈ (runTick scheduler callback now state).processed, p.source = name → p.timer.key < k) ∧
      (takenFrom name (runTick scheduler callback now state).processed).length =
        scanLimit state := by
  have hinvariant : Merged scheduler R now (runTick scheduler callback now state) ∧
      (((runTick scheduler callback now state).store.get k).isSome →
        Covers name k (scanLimit state) (runTick scheduler callback now state)) := by
    refine processTimers_induction (P := fun s => Merged scheduler R now s ∧
      ((s.store.get k).isSome → Covers name k (scanLimit state) s)) ?_ _
      ⟨Merged.start hR hstored, fun hsome => ?_⟩
    · rintro s i timer source ⟨hmerged, hcovers⟩ - hselect hi
      obtain ⟨hnext, htake⟩ := hmerged.take hcallback hselect hi
      refine ⟨htake, fun hsome => ?_⟩
      refine hmerged.covers_take hcallback hi hnext hpre hmatch hsome (hcovers ?_)
      obtain heq | heq := takeTimer_store_cases hmerged hcallback hi hnext
      · exact heq ▸ hsome
      · exact hshrink timer s.store (heq ▸ hsome)
    · obtain ⟨sources, heq, -⟩ := startTick_cases now hR hstored
      rw [heq] at hsome
      obtain ⟨v, hget⟩ := Option.isSome_iff_exists.1 hsome
      exact covers_start hR hstored name hget hpre hmatch
  obtain hcovered | ⟨hbefore, source, hsource, -, hpending⟩ := hinvariant.2 hpresent
  · exact .inl hcovered
  · refine .inr ⟨hbefore, ?_⟩
    have hended := (runTick_ended now hR hstored hcallback).resolve_left (by simp [hrunning])
    obtain ⟨timer, htimer, -⟩ | ⟨-, hused⟩ := hpending
    · rw [hended source hsource] at htimer
      cases htimer
    · exact hused

end

end Weft.Scheduler
