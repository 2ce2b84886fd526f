import Weft.Purge.Families
import Weft.Storage.Interface
import Weft.Lib.Machine

/-! A start in place of a run that has ended. The deletes for the ended run are collected first, and
are put before the writes of the new one in the same batch. They are those of a purge, which lists
its key families by hand and names their keys from the records of the run. -/

namespace Weft.Purge.Atomic
open Weft.Lib Weft.Storage

/-- `created` says that the new run has written the row. -/
structure Row where
  key : Key
  created : Bool
deriving DecidableEq

/-- `start` by what it waits for, with the deletes that it has collected. -/
inductive Stage where
  | deciding
  | collecting
  | committing (deletes : List Key)
  | ended
deriving DecidableEq

structure World where
  rows : List Row
  stage : Stage := .deciding
deriving DecidableEq

inductive Event where
  /-- What the start waits for is there; or it has failed, or the start is turned away. -/
  | proceed (ok : Bool)
  | crash
deriving DecidableEq

/-- The keys of the create batch. -/
def createKeys (others : List Key) : List Key := ⟨.workflow, 0⟩ :: ⟨.checkpoint, 0⟩ :: others

/-- `collectWorkflowPurgeDeleteOperations`: the remainder has a delete for each key it names, stored
or not. -/
def collectDeletes (run : EndedRun) (rows : List Row) : List Key :=
  collectWorkflowPurgeRemainder run (rows.map (·.key)) ++
    collectWorkflowPrefixSweep (rows.map (·.key))

def buildStartBatch (rows : List Row) (deletes puts : List Key) : List Row :=
  puts.map (⟨·, true⟩) ++ rows.filter fun row => row.key ∉ deletes ∧ row.key ∉ puts

/-- The store before the start. -/
def ended (prior : List Key) : List Row := prior.map (⟨·, false⟩)

def startMachine (run : EndedRun) (others : List Key) : Machine World Event where
  step := fun w event =>
    match event, w.stage with
    | .proceed true, .deciding => some { w with stage := .collecting }
    | .proceed true, .collecting => some { w with stage := .committing (collectDeletes run w.rows) }
    | .proceed true, .committing deletes =>
      -- a batch over the limit is an error, and writes nothing
      if deletes.length + (createKeys others).length ≤ MAX_BATCH_OPERATIONS then
        some ⟨buildStartBatch w.rows deletes (createKeys others), .ended⟩
      else some { w with stage := .ended }
    | .proceed false, .ended => none
    | .proceed true, .ended => none
    | .proceed false, _ => some { w with stage := .ended }
    | .crash, _ => some { w with stage := .ended }

/-- The store has the ended run as it was, or the new run and nothing of the ended one. -/
def PriorOrNew (prior others : List Key) (w : World) : Prop :=
  w.rows = ended prior ∨
    (∀ key ∈ createKeys others, ⟨key, true⟩ ∈ w.rows) ∧
      ∀ row ∈ w.rows, row.created = false → row.key.family.outlivesRun = true

/-- Every key of the ended run is listed by the purge, outlives its run on purpose or is written
anew; or the batch would be over the limit. -/
def Swept (run : EndedRun) (prior others : List Key) : Prop :=
  (∀ key ∈ prior, key.Listed run prior ∨ key.family.outlivesRun = true ∨ key ∈ createKeys others) ∨
    MAX_BATCH_OPERATIONS < (collectDeletes run (ended prior)).length + (createKeys others).length

variable {run : EndedRun} {prior others puts : List Key}

theorem keys_ended (prior : List Key) : (ended prior).map (·.key) = prior := by
  simp [ended, Function.comp_def]

theorem mem_collectDeletes_ended {key : Key} (hkey : key ∈ prior) :
    key ∈ collectDeletes run (ended prior) ↔ key.Listed run prior := by
  rw [collectDeletes, keys_ended, List.mem_append, deleted_iff_listed hkey]

/-- What the batch leaves of the ended run. -/
theorem mem_buildStartBatch {row : Row} (hrow : row.created = false) :
    row ∈ buildStartBatch (ended prior) (collectDeletes run (ended prior)) puts ↔
      row.key ∈ prior ∧ ¬ row.key.Listed run prior ∧ row.key ∉ puts := by
  obtain ⟨key, created⟩ := row
  change created = false at hrow
  subst hrow
  simp only [buildStartBatch, List.mem_append, List.mem_map, List.mem_filter, decide_eq_true_eq]
  simp only [ended, List.mem_map, Row.mk.injEq]
  constructor
  · rintro (⟨key', -, -, hcreated⟩ | ⟨⟨key', hprior, rfl, -⟩, hkept, hput⟩)
    · cases hcreated
    · exact ⟨hprior, mt (mem_collectDeletes_ended hprior).2 hkept, hput⟩
  · rintro ⟨hprior, hkept, hput⟩
    exact .inr ⟨⟨key, hprior, rfl, trivial⟩, mt (mem_collectDeletes_ended hprior).1 hkept, hput⟩

theorem mem_buildStartBatch_created {rows : List Row} {deletes : List Key} {key : Key}
    (hkey : key ∈ puts) : ⟨key, true⟩ ∈ buildStartBatch rows deletes puts :=
  List.mem_append_left _ (List.mem_map_of_mem hkey)

/-- The batch leaves the new run alone exactly if it sweeps every key of the ended one. -/
theorem priorOrNew_buildStartBatch_iff (run : EndedRun) (prior others : List Key) :
    PriorOrNew prior others ⟨buildStartBatch (ended prior) (collectDeletes run (ended prior))
        (createKeys others), .ended⟩ ↔
      ∀ key ∈ prior, key.Listed run prior ∨ key.family.outlivesRun = true ∨
        key ∈ createKeys others := by
  have hstate : (⟨⟨.workflow, 0⟩, true⟩ : Row) ∈ buildStartBatch (ended prior)
      (collectDeletes run (ended prior)) (createKeys others) :=
    mem_buildStartBatch_created List.mem_cons_self
  constructor
  · rintro (hsame | ⟨-, hnone⟩) key hkey
    · change buildStartBatch _ _ _ = ended prior at hsame
      rw [hsame] at hstate
      obtain ⟨key', -, heq⟩ := List.mem_map.1 hstate
      cases heq
    · by_contra hleft
      push Not at hleft
      obtain ⟨hlisted, houtlives, hput⟩ := hleft
      have hrow : (⟨key, false⟩ : Row) ∈ buildStartBatch (ended prior)
          (collectDeletes run (ended prior)) (createKeys others) :=
        (mem_buildStartBatch rfl).2 ⟨hkey, hlisted, hput⟩
      exact houtlives (hnone _ hrow rfl)
  · intro hswept
    refine .inr ⟨fun key hkey => mem_buildStartBatch_created hkey, fun row hrow hcreated => ?_⟩
    obtain ⟨hprior, hnot, hput⟩ := (mem_buildStartBatch hcreated).1 hrow
    obtain hlisted | houtlives | hin := hswept row.key hprior
    · exact absurd hlisted hnot
    · exact houtlives
    · exact absurd hin hput

/-- The stages before the commit leave the store, and the deletes are those of the ended run. -/
inductive Reached (run : EndedRun) (prior others : List Key) : World → Prop where
  | before (stage : Stage) (h : ∀ deletes, stage = .committing deletes →
      deletes = collectDeletes run (ended prior)) : Reached run prior others ⟨ended prior, stage⟩
  | committed (h : (collectDeletes run (ended prior)).length + (createKeys others).length ≤
      MAX_BATCH_OPERATIONS) : Reached run prior others ⟨buildStartBatch (ended prior)
        (collectDeletes run (ended prior)) (createKeys others), .ended⟩

theorem Reached.step {w w' : World} {event : Event}
    (h : Reached run prior others w) (hstep : (startMachine run others).step w event = some w') :
    Reached run prior others w' := by
  have hnot : ∀ deletes, Stage.ended = .committing deletes →
    deletes = collectDeletes run (ended prior) :=
    fun _ heq => (by cases heq)
  cases h with
  | committed hsize =>
    cases event with
    | proceed ok => cases ok <;> cases hstep
    | crash =>
      cases hstep
      exact .committed hsize
  | before stage hdeletes =>
    cases event with
    | crash =>
      cases hstep
      exact .before _ hnot
    | proceed ok =>
      cases ok with
      | false =>
        cases stage with
        | ended => cases hstep
        | _ =>
          cases hstep
          exact .before _ hnot
      | true =>
        cases stage with
        | ended => cases hstep
        | deciding =>
          cases hstep
          exact .before _ (fun _ heq => (by cases heq))
        | collecting =>
          cases hstep
          refine .before _ fun deletes heq => ?_
          cases heq
          rfl
        | committing deletes =>
          obtain rfl := hdeletes deletes rfl
          simp only [startMachine] at hstep
          split at hstep
          · rename_i hsize
            cases hstep
            exact .committed hsize
          · cases hstep
            exact .before _ hnot

end Weft.Purge.Atomic
