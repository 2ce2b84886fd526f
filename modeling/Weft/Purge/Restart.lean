import Weft.Purge.Families
import Weft.Lib.Machine

/-! A purge and a start under the same id. A run that ends is put in the terminal index with its
state. The purge reads a run that has ended, plans the keys of the remainder, deletes the history
prefix by prefix, and commits the remainder last. A start in place of the ended run deletes all its
keys and writes its own in one batch. Neither has a condition on the other. -/

namespace Weft.Purge
open Weft.Lib

/-- `execution` counts the executions that were started under the id; `ended` is what a purge reads
of one that has ended. -/
structure StateRow where
  execution : Nat
  ended : Option EndedRun := none
deriving DecidableEq

structure Row where
  key : Key
  execution : Nat
deriving DecidableEq

/-- `purgeWorkflow` for the execution whose state it was given. -/
inductive PurgeStage where
  | planning (execution : Nat) (run : EndedRun)
  | deleting (execution : Nat) (remainder : List Key) (prefixes : List Family)
  | done
deriving DecidableEq

structure World where
  state : Option StateRow := none
  rows : List Row := []
  started : Nat := 0
  purges : List PurgeStage := []
deriving DecidableEq

inductive Event where
  /-- A start, which replaces a run that has ended, with the keys of its batch. -/
  | start (keys : List Key)
  | write (key : Key)
  | finish (run : EndedRun)
  /-- The sweep or a manual purge reads the state row. -/
  | purge
  /-- The purge at a place goes on, or its storage call fails. -/
  | proceed (place : Nat) (ok : Bool)
  | crash
deriving DecidableEq

def putRow (rows : List Row) (row : Row) : List Row := row :: rows.filter (·.key ≠ row.key)

def putRows (execution : Nat) (keys : List Key) : List Row :=
  keys.foldl (fun rows key => putRow rows ⟨key, execution⟩) []

def storageDeletePrefix (rows : List Row) (family : Family) : List Row :=
  rows.filter (·.key.family ≠ family)

def deleteKeys (rows : List Row) (keys : List Key) : List Row := rows.filter (·.key ∉ keys)

/-- One await of `purgeWorkflow`. -/
def purgeStep (w : World) : PurgeStage → World × PurgeStage
  | .planning execution run =>
    (w, .deleting execution (collectWorkflowPurgeRemainder run (w.rows.map (·.key)))
      workflowPurgePrefixes)
  | .deleting execution remainder (family :: prefixes) =>
    ({ w with rows := storageDeletePrefix w.rows family },
      .deleting execution remainder prefixes)
  | .deleting _ remainder [] =>
    ({ w with state := none, rows := deleteKeys w.rows remainder }, .done)
  | .done => (w, .done)

def purgeMachine : Machine World Event where
  step := fun w event =>
    match event with
    | .start keys =>
      if w.state.all (·.ended.isSome) then
        some { w with
          state := some ⟨w.started, none⟩
          rows := putRows w.started keys
          started := w.started + 1 }
      else none
    | .write key =>
      match w.state with
      | some ⟨execution, none⟩ => some { w with rows := putRow w.rows ⟨key, execution⟩ }
      | _ => none
    | .finish run =>
      match w.state with
      | some ⟨execution, none⟩ => some { w with
          state := some ⟨execution, some run⟩
          rows := putRow w.rows ⟨⟨.terminalWorkflow, run.updatedAt⟩, execution⟩ }
      | _ => none
    | .purge =>
      match w.state with
      | some ⟨execution, some run⟩ =>
        some { w with purges := w.purges ++ [.planning execution run] }
      | _ => none
    | .proceed place ok => (w.purges[place]?).bind fun purge =>
      if purge = .done then none
      else if ok then
        let next := purgeStep w purge
        some { next.1 with purges := next.1.purges.set place next.2 }
      else some { w with purges := w.purges.set place .done }
    | .crash => some { w with purges := [] }

/-- The execution that a purge is for. -/
def PurgeStage.execution : PurgeStage → Option Nat
  | .planning execution _ => some execution
  | .deleting execution _ _ => some execution
  | .done => none

/-- The purge of an execution deletes nothing that a later one has written. -/
def SparesLater (w : World) : Event → Prop
  | .proceed place true => ∀ purge ∈ w.purges[place]?, ∀ execution ∈ purge.execution,
      (∀ row ∈ w.rows, execution < row.execution → row ∈ (purgeStep w purge).1.rows) ∧
        (∀ s ∈ w.state, execution < s.execution → (purgeStep w purge).1.state = some s)
  | _ => True

/-- A run that has ended is in the terminal index. -/
def Indexed (w : World) : Prop :=
  ∀ s ∈ w.state, ∀ run ∈ s.ended, ⟨⟨.terminalWorkflow, run.updatedAt⟩, s.execution⟩ ∈ w.rows

/-- No key is left without the state row, a run that has ended is listed, and a purge that has not
come to its end is for a run that is there to be purged again, or has nothing left. -/
def Repurgeable (w : World) : Prop :=
  (w.state = none → w.rows = []) ∧ Indexed w ∧
    ∀ purge ∈ w.purges, ∀ execution ∈ purge.execution,
      (∃ run, w.state = some ⟨execution, some run⟩) ∨ w.state = none

/-- A purge of its own at the next place, from its read to its commit. -/
def purgeAgain (place : Nat) : List Event :=
  .purge :: .proceed place true ::
    List.replicate (workflowPurgePrefixes.length + 1) (.proceed place true)

/-- A run that has ended is removed by a purge that nothing interrupts. -/
def RemovedByPurge (w : World) : Prop :=
  w.state.any (·.ended.isSome) = true →
    (purgeMachine.final w (purgeAgain w.purges.length)).state = none ∧
      (purgeMachine.final w (purgeAgain w.purges.length)).rows = []

/-- No start commits while a purge is under way, and where a run ends, a purge lists all that it has
written. -/
def PurgesApart (w : World) : Event → Prop
  | .start _ => ∀ purge ∈ w.purges, purge = .done
  | .finish run => ∀ row ∈ w.rows, row.key.Listed run (w.rows.map (·.key))
  | _ => True

instance (w : World) (event : Event) : Decidable (PurgesApart w event) := by
  unfold PurgesApart
  split <;> infer_instance

theorem proceed_purgesApart (w : World) (place : Nat) : PurgesApart w (.proceed place true) :=
  trivial

/-- What a purge under way relies on: the keys that it has yet to delete are under its prefixes or
in its plan. -/
def PurgeStage.Fits (w : World) : PurgeStage → Prop
  | .planning execution run => w.state = some ⟨execution, some run⟩ ∨ w.state = none
  | .deleting execution remainder prefixes =>
    (∀ family ∈ prefixes, family ∈ workflowPurgePrefixes) ∧
      ((∃ run, w.state = some ⟨execution, some run⟩) ∧
        (∀ row ∈ w.rows, row.key ∈ remainder ∨ row.key.family ∈ prefixes) ∨ w.state = none)
  | .done => True

structure Inv (w : World) : Prop where
  empty : w.state = none → w.rows = []
  own : ∀ s ∈ w.state, ∀ row ∈ w.rows, row.execution = s.execution
  indexed : Indexed w
  listed : ∀ s ∈ w.state, ∀ run ∈ s.ended, ∀ row ∈ w.rows,
    row.key.Listed run (w.rows.map (·.key))
  fits : ∀ purge ∈ w.purges, purge.Fits w

theorem execution_of_mem_putRows {execution : Nat} {keys : List Key} {row : Row}
    (h : row ∈ putRows execution keys) : row.execution = execution := by
  have hfold : ∀ (keys : List Key) (rows : List Row), (∀ r ∈ rows, r.execution = execution) →
      ∀ r ∈ keys.foldl (fun rows key => putRow rows ⟨key, execution⟩) rows,
        r.execution = execution := by
    intro keys
    induction keys with
    | nil => exact fun rows hrows => hrows
    | cons key keys ih =>
      intro rows hrows
      refine ih _ fun r hr => ?_
      obtain rfl | hr := List.mem_cons.1 hr
      · rfl
      · exact hrows r (List.mem_filter.1 hr).1
  exact hfold keys [] (fun r hr => (by cases hr)) row h

variable {rows : List Row} {remainder : List Key} {family : Family} {run : EndedRun}

/-- The plan and the prefixes cover every key of a run whose keys are listed. -/
theorem left_of_listed (h : ∀ row ∈ rows, row.key.Listed run (rows.map (·.key))) :
    ∀ row ∈ rows, row.key ∈ collectWorkflowPurgeRemainder run (rows.map (·.key)) ∨
      row.key.family ∈ workflowPurgePrefixes := by
  intro row hrow
  have hdeleted := (deleted_iff_listed (List.mem_map_of_mem hrow)).2 (h row hrow)
  refine hdeleted.imp_right fun hsweep => ?_
  exact of_decide_eq_true (List.mem_filter.1 hsweep).2

theorem left_of_deletePrefix {prefixes : List Family}
    (h : ∀ row ∈ rows, row.key ∈ remainder ∨ row.key.family ∈ family :: prefixes) :
    ∀ row ∈ storageDeletePrefix rows family, row.key ∈ remainder ∨ row.key.family ∈ prefixes := by
  intro row hrow
  obtain ⟨hin, hkept⟩ := List.mem_filter.1 hrow
  refine (h row hin).imp_right fun hmem => ?_
  exact (List.mem_cons.1 hmem).resolve_left (of_decide_eq_true hkept)

/-- The row of the terminal index is listed, and the rest is as before. -/
theorem listed_putRow {execution : Nat} (h : ∀ row ∈ rows, row.key.Listed run (rows.map (·.key))) :
    let rows' := putRow rows ⟨⟨.terminalWorkflow, run.updatedAt⟩, execution⟩
    ∀ row ∈ rows', row.key.Listed run (rows'.map (·.key)) := by
  intro rows' row hrow
  obtain rfl | hold := List.mem_cons.1 hrow
  · exact (rfl : run.updatedAt = run.updatedAt)
  · refine (h row (List.mem_filter.1 hold).1).of_kept fun key hkey _ => ?_
    obtain ⟨other, hother, rfl⟩ := List.mem_map.1 hkey
    by_cases hsame : other.key = ⟨.terminalWorkflow, run.updatedAt⟩
    · rw [hsame]
      exact List.mem_cons_self
    · exact List.mem_cons_of_mem _
        (List.mem_map_of_mem (List.mem_filter.2 ⟨hother, decide_eq_true hsame⟩))

/-- What is left is listed as before. -/
theorem listed_deletePrefix (hfamily : family ∈ workflowPurgePrefixes)
    (h : ∀ row ∈ rows, row.key.Listed run (rows.map (·.key))) :
    ∀ row ∈ storageDeletePrefix rows family,
      row.key.Listed run ((storageDeletePrefix rows family).map (·.key)) := by
  intro row hrow
  have hmap : (storageDeletePrefix rows family).map (·.key) =
      (rows.map (·.key)).filter (·.family ≠ family) := by
    rw [List.filter_map]
    rfl
  rw [hmap]
  refine (h row (List.mem_filter.1 hrow).1).of_kept fun key hkey hnot => ?_
  refine List.mem_filter.2 ⟨hkey, decide_eq_true ?_⟩
  rintro rfl
  exact hnot hfamily

/-- After the last prefix the commit leaves nothing. -/
theorem deleteKeys_eq_nil (h : ∀ row ∈ rows, row.key ∈ remainder ∨ row.key.family ∈ []) :
    deleteKeys rows remainder = [] := by
  rw [List.eq_nil_iff_forall_not_mem]
  intro row hrow
  obtain ⟨hin, hkept⟩ := List.mem_filter.1 hrow
  exact of_decide_eq_true hkept ((h row hin).resolve_right List.not_mem_nil)

/-- A purge under way goes on fitting while rows are deleted and the state row stays. -/
theorem PurgeStage.Fits.shrink {w : World} {purge : PurgeStage} (h : purge.Fits w)
    (hsub : ∀ row ∈ rows, row ∈ w.rows) : purge.Fits { w with rows := rows } := by
  cases purge with
  | planning execution run => exact h
  | done => trivial
  | deleting execution remainder prefixes =>
    refine ⟨h.1, h.2.imp_left fun hstate => ⟨hstate.1, ?_⟩⟩
    exact fun row hrow => hstate.2 row (hsub row hrow)

/-- The run that a purge is for is the one that is stored. -/
theorem PurgeStage.Fits.state {w : World} {purge : PurgeStage} (h : purge.Fits w) {execution : Nat}
    (he : purge.execution = some execution) :
    (∃ run, w.state = some ⟨execution, some run⟩) ∨ w.state = none := by
  cases purge with
  | done => cases he
  | planning e run =>
    cases he
    exact h.imp_left fun hstate => ⟨run, hstate⟩
  | deleting e remainder prefixes =>
    cases he
    exact h.2.imp_left And.left

/-- Where the run has not ended, no purge is under way. -/
theorem PurgeStage.Fits.eq_done {w : World} {purge : PurgeStage} (h : purge.Fits w)
    {execution : Nat} (hstate : w.state = some ⟨execution, none⟩) : purge = .done := by
  have hno : ∀ e, ¬ ((∃ run, w.state = some ⟨e, some run⟩) ∨ w.state = none) := by
    simp [hstate]
  cases purge with
  | done => rfl
  | planning e run => exact (hno e (h.state rfl)).elim
  | deleting e remainder prefixes => exact (hno e (h.state rfl)).elim

namespace Inv

variable {w : World}

theorem initial : Inv {} where
  empty := fun _ => rfl
  own := fun _ hs => (by cases hs)
  indexed := fun _ hs => (by cases hs)
  listed := fun _ hs => (by cases hs)
  fits := fun _ hp => (by cases hp)

variable {purge : PurgeStage}

/-- The stage of one purge is written. -/
theorem setPurge (h : Inv w) (place : Nat) (hfits : purge.Fits w) :
    Inv { w with purges := w.purges.set place purge } := { h with
  fits := by
    intro p hp
    obtain hold | rfl := List.mem_or_eq_of_mem_set hp
    · exact h.fits p hold
    · exact hfits }

/-- A prefix of the history is deleted while the state row stays. -/
theorem deletePrefix (h : Inv w) (hfamily : family ∈ workflowPurgePrefixes) :
    Inv { w with rows := storageDeletePrefix w.rows family } := by
  have hsub : ∀ row ∈ storageDeletePrefix w.rows family, row ∈ w.rows :=
    fun row hrow => (List.mem_filter.1 hrow).1
  have hfamily' : family ≠ .terminalWorkflow := by
    rintro rfl
    simp [workflowPurgePrefixes] at hfamily
  refine ⟨fun hnone => ?_, fun s hs row hrow => h.own s hs row (hsub row hrow),
    fun s hs run hrun => List.mem_filter.2 ⟨h.indexed s hs run hrun, decide_eq_true hfamily'.symm⟩,
    fun s hs run hrun => listed_deletePrefix hfamily (h.listed s hs run hrun),
    fun purge hp => (h.fits purge hp).shrink hsub⟩
  rw [List.eq_nil_iff_forall_not_mem]
  intro row hrow
  have hin := hsub row hrow
  rw [h.empty hnone] at hin
  cases hin

/-- The world and the stage after one await of a purge. -/
theorem purgeStep (h : Inv w) (hp : purge.Fits w) :
    Inv (purgeStep w purge).1 ∧ (Weft.Purge.purgeStep w purge).2.Fits
      (Weft.Purge.purgeStep w purge).1 := by
  cases purge with
  | done => exact ⟨h, trivial⟩
  | planning execution run =>
    refine ⟨h, fun family hfamily => hfamily, ?_⟩
    refine hp.imp_left fun hstate => ⟨⟨run, hstate⟩, ?_⟩
    exact left_of_listed (h.listed _ hstate run rfl)
  | deleting execution remainder prefixes =>
    obtain ⟨hprefixes, hp⟩ := hp
    cases prefixes with
    | cons family prefixes =>
      refine ⟨h.deletePrefix (hprefixes family List.mem_cons_self),
        fun f hf => hprefixes f (List.mem_cons_of_mem _ hf), ?_⟩
      exact hp.imp_left fun hstate => ⟨hstate.1, left_of_deletePrefix hstate.2⟩
    | nil =>
      have hnil : deleteKeys w.rows remainder = [] := by
        obtain hstate | hnone := hp
        · exact deleteKeys_eq_nil hstate.2
        · rw [h.empty hnone]
          rfl
      refine ⟨⟨fun _ => hnil, fun _ hs => (by cases hs), fun _ hs => (by cases hs),
        fun _ hs => (by cases hs), fun p hin => ?_⟩, trivial⟩
      cases p with
      | done => trivial
      | planning e run => exact .inr rfl
      | deleting e r ps => exact ⟨(h.fits _ hin).1, .inr rfl⟩

theorem step (h : Inv w) {event : Event} {w' : World} (hok : PurgesApart w event)
    (hstep : purgeMachine.step w event = some w') : Inv w' := by
  cases event with
  | start keys =>
    simp only [purgeMachine] at hstep
    split at hstep
    · cases hstep
      refine ⟨fun hnone => (by cases hnone), ?_, ?_, ?_, ?_⟩
      · intro s hs row hrow
        cases hs
        exact execution_of_mem_putRows hrow
      · intro s hs run hrun
        cases hs
        cases hrun
      · intro s hs run hrun
        cases hs
        cases hrun
      · intro purge hp
        rw [hok purge hp]
        trivial
    · cases hstep
  | write key =>
    simp only [purgeMachine] at hstep
    split at hstep
    · rename_i execution hstate
      cases hstep
      have hrunning : ∀ s ∈ w.state, s.ended = none := by
        intro s hs
        rw [hstate] at hs
        cases hs
        rfl
      refine ⟨?_, ?_, ?_, ?_, ?_⟩
      · intro hnone
        change w.state = none at hnone
        rw [hstate] at hnone
        cases hnone
      · intro s hs row hrow
        change w.state = some s at hs
        obtain rfl | hold := List.mem_cons.1 hrow
        · rw [hstate] at hs
          cases hs
          rfl
        · exact h.own s hs row (List.mem_filter.1 hold).1
      · intro s hs run hrun
        rw [hrunning s hs] at hrun
        cases hrun
      · intro s hs run hrun
        rw [hrunning s hs] at hrun
        cases hrun
      · intro purge hp
        rw [(h.fits purge hp).eq_done hstate]
        trivial
    · cases hstep
  | finish run =>
    simp only [purgeMachine] at hstep
    split at hstep
    · rename_i execution hstate
      cases hstep
      refine ⟨fun hnone => (by cases hnone), ?_, ?_, ?_, ?_⟩
      · intro s hs row hrow
        cases hs
        obtain rfl | hold := List.mem_cons.1 hrow
        · rfl
        · exact h.own _ hstate row (List.mem_filter.1 hold).1
      · intro s hs run' hrun
        cases hs
        cases hrun
        exact List.mem_cons_self
      · intro s hs run' hrun
        cases hs
        cases hrun
        exact listed_putRow hok
      · intro purge hp
        rw [(h.fits purge hp).eq_done hstate]
        trivial
    · cases hstep
  | purge =>
    simp only [purgeMachine] at hstep
    split at hstep
    · rename_i execution run hstate
      cases hstep
      refine { h with fits := ?_ }
      intro purge hp
      obtain hold | hnew := List.mem_append.1 hp
      · exact h.fits purge hold
      · obtain rfl := List.mem_singleton.1 hnew
        exact .inl hstate
    · cases hstep
  | proceed place ok =>
    obtain ⟨purge, hpurge, hnext⟩ := Option.bind_eq_some_iff.1 hstep
    have hfits := h.fits purge (List.mem_of_getElem? hpurge)
    split at hnext
    · cases hnext
    · split at hnext
      · cases hnext
        obtain ⟨hinv, hstage⟩ := h.purgeStep hfits
        exact hinv.setPurge place hstage
      · cases hnext
        exact h.setPurge place trivial
  | crash =>
    cases hstep
    exact { h with fits := fun _ hp => (by cases hp) }

theorem repurgeable (h : Inv w) : Repurgeable w :=
  ⟨h.empty, h.indexed, fun purge hp _ he => (h.fits purge hp).state he⟩

theorem sparesLater (h : Inv w) (event : Event) : SparesLater w event := by
  unfold SparesLater
  split
  · rename_i place
    intro purge hpurge execution he
    have hfits := h.fits purge (List.mem_of_getElem? hpurge)
    obtain ⟨run, hstate⟩ | hnone := hfits.state he
    · refine ⟨fun row hrow hlt => ?_, fun s hs hlt => ?_⟩
      · have hown : row.execution = execution := h.own _ hstate row hrow
        omega
      · rw [Option.mem_def, hstate] at hs
        cases hs
        exact (Nat.lt_irrefl _ hlt).elim
    · refine ⟨fun row hrow => ?_, fun s hs => ?_⟩
      · rw [h.empty hnone] at hrow
        cases hrow
      · rw [Option.mem_def, hnone] at hs
        cases hs
  · trivial

/-- The rest of a purge that nothing interrupts, by induction on the prefixes it has yet to
delete. -/
theorem final_deleting {place execution : Nat} (prefixes : List Family) {w : World} (h : Inv w)
    (hpurge : w.purges[place]? = some (.deleting execution remainder prefixes)) :
    let v := purgeMachine.final w (List.replicate (prefixes.length + 1) (.proceed place true))
    v.state = none ∧ v.rows = [] := by
  induction prefixes generalizing w with
  | nil =>
    have hstep : purgeMachine.step w (.proceed place true) = some { w with
        state := none
        rows := deleteKeys w.rows remainder
        purges := w.purges.set place .done } := by
      simp [purgeMachine, hpurge, Weft.Purge.purgeStep]
    have hinv := step h (proceed_purgesApart w place) hstep
    simp only [List.length_nil, List.replicate, Machine.final, hstep]
    exact ⟨trivial, hinv.empty rfl⟩
  | cons family prefixes ih =>
    have hstep : purgeMachine.step w (.proceed place true) = some { w with
        rows := storageDeletePrefix w.rows family
        purges := w.purges.set place (.deleting execution remainder prefixes) } := by
      simp [purgeMachine, hpurge, Weft.Purge.purgeStep]
    have hlt := (List.getElem?_eq_some_iff.1 hpurge).1
    have hinv := step h (proceed_purgesApart w place) hstep
    have hrest := ih hinv (List.getElem?_set_self hlt)
    simp only [List.length_cons, List.replicate_succ, Machine.final, hstep] at hrest ⊢
    exact hrest

theorem removedByPurge (h : Inv w) : RemovedByPurge w := by
  intro hterminal
  obtain ⟨⟨execution, ended⟩, hstate, hends⟩ := (Option.any_eq_true _ _).1 hterminal
  obtain ⟨run, rfl⟩ := Option.isSome_iff_exists.1 hends
  have hread : purgeMachine.step w .purge =
      some { w with purges := w.purges ++ [.planning execution run] } := by
    simp [purgeMachine, hstate]
  have hplan : purgeMachine.step { w with purges := w.purges ++ [.planning execution run] }
      (.proceed w.purges.length true) = some { w with
        purges := w.purges ++ [.deleting execution
          (collectWorkflowPurgeRemainder run (w.rows.map (·.key))) workflowPurgePrefixes] } := by
    simp [purgeMachine, Weft.Purge.purgeStep]
  have hbegun := step h (show PurgesApart w .purge from trivial) hread
  have hinv := step hbegun (proceed_purgesApart _ w.purges.length) hplan
  have hrest := hinv.final_deleting workflowPurgePrefixes
    (List.getElem?_concat_length : _[w.purges.length]? = _)
  simp only [purgeAgain, Machine.final, hread, hplan]
  exact hrest

end Inv

/-- A purge has planned its deletes when a start replaces the run. -/
def restartedInPurge : List Event :=
  [.start [⟨.checkpointHistory, 0⟩, ⟨.attribute, 0⟩], .finish {}, .purge, .proceed 0 true,
    .start [⟨.checkpointHistory, 0⟩, ⟨.attribute, 0⟩], .proceed 0 true]

/-- A run that has slept leaves its timer behind the purge. -/
example : (purgeMachine.final {} ([.start [⟨.sleepTimer, 8⟩], .finish {}] ++ purgeAgain 0)).rows =
    [⟨⟨.sleepTimer, 8⟩, 0⟩] := by decide

/-- A purge stops in its history, a crash ends another one, a third one removes the run, and a new
run begins under the id. -/
def purgedInTurn : List Event :=
  [Event.start [⟨.checkpointHistory, 0⟩, ⟨.attribute, 0⟩, ⟨.tagIndex, 4⟩], .write ⟨.event, 1⟩,
    .write ⟨.update, 6⟩, .write ⟨.updateResponse, 6⟩, .finish { tags := [4] }, .purge,
    .proceed 0 true, .proceed 0 true, .proceed 0 false, .purge, .proceed 1 true, .crash] ++
    purgeAgain 0 ++ [Event.start [⟨.checkpointHistory, 0⟩]]

end Weft.Purge
