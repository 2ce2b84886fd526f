import Weft.Purge.Keys
import Weft.Attributes.Value

/-! The key constructors that take a workflow id, a schedule id, an operation id or an attribute
name, and the prefixes that are scanned for one workflow. -/

namespace Weft.Js

/-! ## Integers as numbers -/

/-- The number of zeros that a numeral ends with. -/
def trailingZeros (n : Nat) : Nat := ((Nat.digits 10 n).takeWhile (· = 0)).length

/-- The digits of a number in front of the zeros it ends with. -/
def significand (n : Nat) : Nat := Nat.ofDigits 10 ((Nat.digits 10 n).dropWhile (· = 0))

theorem digits_eq (n : Nat) : Nat.digits 10 n =
    List.replicate (trailingZeros n) 0 ++ (Nat.digits 10 n).dropWhile (· = 0) := by
  have hzeros : (Nat.digits 10 n).takeWhile (· = 0) = List.replicate (trailingZeros n) 0 := by
    refine List.eq_replicate_iff.2 ⟨rfl, fun d hd => ?_⟩
    simpa using List.mem_takeWhile_imp hd
  rw [← hzeros, List.takeWhile_append_dropWhile]

theorem digits_significand (n : Nat) :
    Nat.digits 10 (significand n) = (Nat.digits 10 n).dropWhile (· = 0) := by
  refine Nat.digits_ofDigits 10 (by decide) _ ?_ ?_
  · intro d hd
    exact Nat.digits_lt_base (by decide) ((List.dropWhile_sublist _).subset hd)
  · intro hne
    have hn : n ≠ 0 := by
      rintro rfl
      simp at hne
    rw [(List.dropWhile_suffix _).getLast hne]
    exact Nat.getLast_digit_ne_zero 10 hn

theorem significand_mod {n : Nat} (hn : n ≠ 0) : significand n % 10 ≠ 0 := by
  have hvalue : significand n ≠ 0 := by
    intro h0
    have hdrop := digits_significand n
    rw [h0, Nat.digits_zero] at hdrop
    have hall := digits_eq n
    rw [← hdrop, List.append_nil] at hall
    have hzeros : ∀ d ∈ Nat.digits 10 n, d = 0 := by
      rw [hall]
      exact fun d => List.eq_of_mem_replicate
    exact Nat.getLast_digit_ne_zero 10 hn (hzeros _ (List.getLast_mem _))
  have hdigits := digits_significand n
  rw [Nat.digits_def' (by decide) (Nat.pos_of_ne_zero hvalue)] at hdigits
  have hhead := List.head?_dropWhile_not (p := fun d : Nat => decide (d = 0)) (l := Nat.digits 10 n)
  rw [← hdigits] at hhead
  simpa using hhead

/-- An integer of the source that is not negative. -/
def JsNumber.ofNat (n : Nat) : JsNumber where
  mantissa := significand n
  exponent := trailingZeros n
  canonical := by
    by_cases hn : n = 0
    · subst hn
      exact .inl ⟨rfl, rfl⟩
    · have := significand_mod hn
      right
      omega

theorem toJsString_ofNat {n : Nat}
    (hn : n < 10 ^ 21) : (JsNumber.ofNat n).toJsString = decimalUnits n := by
  by_cases h0 : n = 0
  · subst h0
    rfl
  · have hsig : significand n ≠ 0 := by
      intro h
      have := significand_mod h0
      rw [h] at this
      exact this rfl
    have hunits : decimalUnits (significand n) =
        ((Nat.digits 10 n).dropWhile (· = 0)).reverse.map digitUnit := by
      rw [decimalUnits, if_neg hsig, digits_significand]
    have hlen : (decimalUnits (significand n)).length + trailingZeros n ≤ 21 := by
      have hall := congrArg List.length (digits_eq n)
      rw [List.length_append, List.length_replicate] at hall
      rw [hunits, List.length_map, List.length_reverse]
      have := (Nat.digits_length_le_iff (by decide) n).2 hn
      omega
    have hle : ((decimalUnits (significand n)).length : Int) ≤
        (decimalUnits (significand n)).length + (trailingZeros n : Int) ∧
        ((decimalUnits (significand n)).length : Int) + (trailingZeros n : Int) ≤ 21 := by
      omega
    have hneg : ¬ ((significand n : Int) < 0) := by omega
    have hzero : ¬ ((significand n : Int) = 0) := by omega
    simp only [JsNumber.toJsString, JsNumber.ofNat, hzero, hneg, if_false, Int.natAbs_natCast,
      positiveToString, hle, and_self, if_true]
    rw [add_sub_cancel_left, Int.toNat_natCast, hunits]
    conv_rhs => rw [decimalUnits, if_neg h0, digits_eq n]
    rw [List.reverse_append, List.map_append, List.reverse_replicate, List.map_replicate]

end Weft.Js

namespace Weft.Storage
open Weft.Js Weft.Attributes

namespace KEYS

export Purge.Keys.KEYS (timeline update fleetEventByWorkflow scheduleRunLink
  scheduleRunBySchedule terminalWorkflow teardownDeadLetter)

def timelinePrefix (id : Component) : JsString := js "wf:" ++ id.enc ++ js ":timeline:"

def schedule (id : Component) : JsString := js "schedule:" ++ id.enc

def scheduleRun (workflowId : Component) : JsString := js "schedule-run:" ++ workflowId.enc

def operation (queue : JsString) (scheduledAt : Nat) (id : JsString) : JsString :=
  js "op:" ++ queue ++ colon :: paddedNat 16 scheduledAt ++ colon :: id

def operationInflight (id : JsString) : JsString := js "op:inflight:" ++ id

def operationQueued (id : JsString) : JsString := js "op:queued:" ++ id

def operationResolved (id : JsString) : JsString := js "op:resolved:" ++ id

def operationDeadLetter (id : JsString) : JsString := js "op:dead-letter:" ++ id

def operationResolvedByTime (resolvedAt : Nat) (id : Component) : JsString :=
  js "op:resolved-by-time:" ++ paddedNat 16 resolvedAt ++ colon :: id.enc

def asyncActivity (workflowId token : Component) : JsString :=
  js "async-act:v1:" ++ workflowId.enc ++ colon :: token.enc

def asyncActivityResolution (workflowId token : Component) : JsString :=
  js "async-act:v1:" ++ workflowId.enc ++ colon :: token.enc ++ js ":resolution"

def asyncActivityWorkflowPrefix (workflowId : Component) : JsString :=
  js "async-act:v1:" ++ workflowId.enc ++ [colon]

def activityReconciliationPrefix (workflowId : Component) : JsString :=
  js "actrec:v1:" ++ workflowId.enc ++ [colon]

def activityReconciliation (workflowId activityName : Component)
    (idempotencyKeyDigest : JsString) : JsString :=
  js "actrec:v1:" ++ workflowId.enc ++ colon :: activityName.enc ++ colon :: idempotencyKeyDigest

def fleetEventByWorkflowPrefix (workflowId : Component) : JsString :=
  js "fleet-event-by-workflow:" ++ workflowId.enc ++ [colon]

def signalPrefix (workflowId : Component) : JsString := js "sig:" ++ workflowId.enc ++ [colon]

def signalAcceptedResponsePrefix (workflowId : Component) : JsString :=
  js "sigres:v1:" ++ workflowId.enc ++ [colon]

def updatePrefix (workflowId : Component) : JsString := js "upd:" ++ workflowId.enc ++ [colon]

def updateIdempotency (workflowId : Component) (key : JsString) : JsString :=
  js "upk:" ++ workflowId.enc ++ colon :: key

def review (workflowId : Component) (reviewId : JsString) : JsString :=
  js "review:" ++ workflowId.enc ++ colon :: reviewId

def workflowHeaders (workflowId : Component) : JsString := js "wf-headers:" ++ workflowId.enc

def childCancellationPrefix (workflowId : Component) : JsString :=
  js "child-cancel:" ++ workflowId.enc ++ [colon]

def childCancellation (workflowId childWorkflowId : Component) : JsString :=
  js "child-cancel:" ++ workflowId.enc ++ colon :: childWorkflowId.enc

def workflowHasServices (workflowId : Component) : JsString :=
  js "wf-has-services:" ++ workflowId.enc

def finalizerState (workflowId : Component) : JsString :=
  js "wf-finalizer-state:" ++ workflowId.enc

def teardownOwed (workflowId : Component) : JsString := js "wf-teardown-needed:" ++ workflowId.enc

def teardownSucceeded (workflowId : Component) : JsString :=
  js "wf-teardown-succeeded:" ++ workflowId.enc

def offload (workflowId : Component) (key : JsString) : JsString :=
  js "offload:" ++ workflowId.enc ++ colon :: key

def archive (workflowId : Component) (key : JsString) : JsString :=
  js "archive:" ++ workflowId.enc ++ colon :: key

def stateExecution (ownerWorkflowId key : Component) : JsString :=
  js "state:execution:" ++ ownerWorkflowId.enc ++ colon :: key.enc

def streamChunk (workflowId : Component) (key : JsString) (chunkIndex : Nat) : JsString :=
  js "blob:" ++ workflowId.enc ++ colon :: key ++ js ":chunk:" ++ paddedNat 10 chunkIndex

def streamTail (workflowId : Component) (key : JsString) : JsString :=
  js "blob:" ++ workflowId.enc ++ colon :: key ++ js ":tail"

def streamMetadata (workflowId : Component) (key : JsString) : JsString :=
  js "blob:" ++ workflowId.enc ++ colon :: key ++ js ":meta"

def budgetCharged (operationId : JsString) : JsString := js "budget-charged:" ++ operationId

def toolEffect (workflowId : Component) (agentId semanticHash : JsString) : JsString :=
  js "tool-effect:" ++ workflowId.enc ++ colon :: agentId ++ colon :: semanticHash

end KEYS

theorem formatSortableTimestamp_ofNat {n : Nat} (hn : n < 10 ^ 16) :
    formatSortableTimestamp (JsNumber.ofNat n) = paddedNat 16 n := by
  rw [formatSortableTimestamp, toJsString_ofNat (by omega), paddedNat]

end Weft.Storage
