import Weft.EventLog.Model
import Weft.Lib.Except
import Weft.Lib.HashChain

/-! `verifyEventLog`: a walk over the surviving entries from the watermark on, checked against
the head, and repeated while a commit moves either of them. -/

namespace Weft.EventLog
open Weft.Js Weft.Storage Weft.Lib Weft.Lib.HashChain

universe u

inductive VerifyResult where
  | valid
  | invalid (firstInvalidSequence : Int)
  | indeterminate
deriving DecidableEq, Repr

inductive VerifyPass where
  | ok
  | invalid (firstInvalidSequence : Int)
deriving DecidableEq, Repr

structure ScannedChain where
  entriesSeen : Nat
  lastSequence : Int
  lastHash : JsString
deriving DecidableEq, Repr

variable {V P T R : Type u}

def checkChainLink (entry : WorkflowLogEntry P T) (previousHash : JsString) (isFirst : Bool)
    (expectedFirstSequence : Int) : VerifyPass :=
  if isFirst ∧ entry.sequence ≠ expectedFirstSequence then .invalid expectedFirstSequence
  else if entry.prevHash ≠ previousHash then .invalid entry.sequence
  else .ok

variable (codec : LogCodec V P T R)

/-- One record of the walk; what is no entry is skipped. -/
def scanRow (expectedFirstSequence : Int) (chain : ScannedChain) (bytes : V) :
    Except Int ScannedChain :=
  match codec.decodeEntry bytes with
  | none => .ok chain
  | some entry =>
    match checkChainLink entry chain.lastHash (chain.entriesSeen = 0) expectedFirstSequence with
    | .invalid sequence => .error sequence
    | .ok => .ok
      { entriesSeen := chain.entriesSeen + 1
        lastSequence := entry.sequence
        lastHash := codec.hashBytes bytes }

def startChain (seed : JsString) : ScannedChain := ⟨0, -1, seed⟩

def scanChain (rows : List V) (seed : JsString) (expectedFirstSequence : Int) :
    Except Int ScannedChain :=
  rows.foldlM (scanRow codec expectedFirstSequence) (startChain seed)

def verifyTailAgainstHead (scan : ScannedChain) (head : EventHeadRecord) : VerifyPass :=
  if head.sequence = EMPTY_EVENT_HEAD.sequence then
    if scan.entriesSeen = 0 then .ok else .invalid 0
  else if scan.entriesSeen = 0 then .invalid head.sequence
  else if scan.lastSequence ≠ head.sequence then .invalid (scan.lastSequence + 1)
  else if scan.lastHash ≠ head.lastHash then .invalid scan.lastSequence
  else .ok

/-! ## One pass -/

def snapshotSeed (watermark : Option (EventLogWatermark R)) : JsString :=
  (watermark.map (·.prevHash)).getD GENESIS_HASH

def expectedFirst (watermark : Option (EventLogWatermark R)) : Int :=
  (watermark.map (·.sequence)).getD 0

def snapshotOptions (workflowId : Component) (watermark : Option (EventLogWatermark R)) :
    ScanOptions where
  gte := watermark.map fun mark => KEYS.event workflowId mark.sequence

/-- What a clean walk says about the snapshot. -/
def finishPass (watermark : Option (EventLogWatermark R)) (head : EventHeadRecord)
    (scan : ScannedChain) : VerifyPass :=
  match watermark with
  | some mark =>
    if scan.entriesSeen = 0 then .invalid mark.sequence else verifyTailAgainstHead scan head
  | none => verifyTailAgainstHead scan head

def verifyAgainstSnapshot (s : Store V) (workflowId : Component)
    (watermark : Option (EventLogWatermark R)) (head : EventHeadRecord) : VerifyPass :=
  let rows := (scan s (KEYS.eventPrefix workflowId) (snapshotOptions workflowId watermark)).map
    (·.2)
  match scanChain codec rows (snapshotSeed watermark) (expectedFirst watermark) with
  | .error sequence => .invalid sequence
  | .ok chain => finishPass watermark head chain

/-! ## Attempts -/

def MAX_ATTEMPTS : Nat := 5

def watermarkMoved (watermark watermarkAfter : Option (EventLogWatermark R)) : Bool :=
  (watermark.map (·.sequence)).getD (-1) < (watermarkAfter.map (·.sequence)).getD (-1)

def headMoved (head headAfter : EventHeadRecord) : Bool :=
  headAfter.sequence ≠ head.sequence || headAfter.lastHash ≠ head.lastHash

def verifyAttempts (s : Store V) (workflowId : Component) : Nat → VerifyResult
  | 0 => .indeterminate
  | attempts + 1 =>
    let watermark := readEventLogWatermark codec s workflowId
    let head := readEventHead codec s workflowId
    match verifyAgainstSnapshot codec s workflowId watermark head with
    | .ok => .valid
    | .invalid sequence =>
      let watermarkAfter := readEventLogWatermark codec s workflowId
      let headAfter := readEventHead codec s workflowId
      if watermarkMoved watermark watermarkAfter || headMoved head headAfter then
        verifyAttempts s workflowId attempts
      else .invalid sequence

/-- `verifyEventLog` on a store that nothing changes meanwhile. -/
def verifyEventLog (s : Store V) (workflowId : Component) : VerifyResult :=
  verifyAttempts codec s workflowId MAX_ATTEMPTS

variable {codec}

theorem watermarkMoved_self (watermark : Option (EventLogWatermark R)) :
    watermarkMoved watermark watermark = false :=
  decide_eq_false (lt_irrefl _)

theorem headMoved_self (head : EventHeadRecord) : headMoved head head = false := by
  simp [headMoved]

/-- Without commits the first pass decides. -/
theorem verifyEventLog_eq (s : Store V) (workflowId : Component) :
    verifyEventLog codec s workflowId =
      match verifyAgainstSnapshot codec s workflowId (readEventLogWatermark codec s workflowId)
        (readEventHead codec s workflowId) with
      | .ok => .valid
      | .invalid sequence => .invalid sequence := by
  rw [verifyEventLog, MAX_ATTEMPTS, verifyAttempts]
  cases verifyAgainstSnapshot codec s workflowId (readEventLogWatermark codec s workflowId)
      (readEventHead codec s workflowId) with
  | ok => rfl
  | invalid sequence => simp [watermarkMoved_self, headMoved_self]

theorem verify_valid_iff (s : Store V) (workflowId : Component) :
    verifyEventLog codec s workflowId = .valid ↔
      verifyAgainstSnapshot codec s workflowId (readEventLogWatermark codec s workflowId)
        (readEventHead codec s workflowId) = .ok := by
  rw [verifyEventLog_eq]
  cases verifyAgainstSnapshot codec s workflowId (readEventLogWatermark codec s workflowId)
      (readEventHead codec s workflowId) with
  | ok => simp
  | invalid sequence => simp

/-! ## What a walk accepts -/

section

variable (codec)

def prevHashOf (bytes : V) : Option JsString := (codec.decodeEntry bytes).map (·.prevHash)

def sequenceOf (bytes : V) : Option Int := (codec.decodeEntry bytes).map (·.sequence)

def entriesOf (rows : List V) : List V := rows.filter fun bytes => (codec.decodeEntry bytes).isSome

def lastSequenceOf (last : Int) : List V → Int
  | [] => last
  | bytes :: rest => lastSequenceOf ((sequenceOf codec bytes).getD last) rest

end

variable {bytes : V}

theorem lastSequenceOf_concat (last : Int) (rows : List V) {sequence : Int}
    (h : sequenceOf codec bytes = some sequence) :
    lastSequenceOf codec last (rows ++ [bytes]) = sequence := by
  induction rows generalizing last with
  | nil => simp [lastSequenceOf, h]
  | cons x rows ih => exact ih _

variable {rows : List V}

theorem entriesOf_cons_none (h : codec.decodeEntry bytes = none) :
    entriesOf codec (bytes :: rows) = entriesOf codec rows := by
  simp [entriesOf, h]

variable {entry : WorkflowLogEntry P T}

theorem entriesOf_cons_some (h : codec.decodeEntry bytes = some entry) :
    entriesOf codec (bytes :: rows) = bytes :: entriesOf codec rows := by
  simp [entriesOf, h]

variable {expected : Int}

/-- The link is accepted if the entry is chained on and, as the first, has the sequence
asked for. -/
theorem scanRow_entry {chain chain' : ScannedChain} (h : codec.decodeEntry bytes = some entry) :
    scanRow codec expected chain bytes = .ok chain' ↔
      entry.prevHash = chain.lastHash ∧ (chain.entriesSeen = 0 → entry.sequence = expected) ∧
        chain' = ⟨chain.entriesSeen + 1, entry.sequence, codec.hashBytes bytes⟩ := by
  simp only [scanRow, h, checkChainLink, decide_eq_true_eq]
  split_ifs with hfirst hprev
  · simp only [false_iff]
    rintro ⟨-, hexpected, -⟩
    exact hfirst.2 (hexpected hfirst.1)
  · simp only [false_iff]
    rintro ⟨hlink, -⟩
    exact hprev hlink
  · simp only [Except.ok.injEq]
    rw [not_and, not_ne_iff] at hfirst
    exact ⟨fun heq => ⟨not_ne_iff.1 hprev, hfirst, heq.symm⟩, fun heq => heq.2.2.symm⟩

theorem scanRows_eq_ok {start chain : ScannedChain} :
    rows.foldlM (scanRow codec expected) start = .ok chain ↔
      Linked (prevHashOf codec) codec.hashBytes start.lastHash (entriesOf codec rows) ∧
        (start.entriesSeen = 0 → ∀ bytes, (entriesOf codec rows).head? = some bytes →
          sequenceOf codec bytes = some expected) ∧
        chain = ⟨start.entriesSeen + (entriesOf codec rows).length,
          lastSequenceOf codec start.lastSequence (entriesOf codec rows),
          tip codec.hashBytes start.lastHash (entriesOf codec rows)⟩ := by
  induction rows generalizing start with
  | nil =>
    rw [List.foldlM_nil]
    constructor
    · intro h
      cases h
      exact ⟨trivial, nofun, rfl⟩
    · rintro ⟨-, -, rfl⟩
      rfl
  | cons bytes rows ih =>
    rw [List.foldlM_cons, bind_eq_ok]
    cases hentry : codec.decodeEntry bytes with
    | none =>
      have hskip : scanRow codec expected start bytes = .ok start := by simp [scanRow, hentry]
      rw [entriesOf_cons_none hentry, hskip]
      simp only [Except.ok.injEq, exists_eq_left']
      exact ih
    | some entry =>
      rw [entriesOf_cons_some hentry]
      simp only [scanRow_entry hentry, ih, Linked, prevHashOf, sequenceOf, hentry, Option.map_some,
        Option.some.injEq, List.head?_cons, forall_eq', lastSequenceOf, tip, List.length_cons,
        Option.getD_some]
      constructor
      · rintro ⟨next, ⟨hlink, hfirst, rfl⟩, hrest, -, rfl⟩
        refine ⟨⟨hlink, hrest⟩, hfirst, ?_⟩
        simp only [ScannedChain.mk.injEq, and_true]
        omega
      · rintro ⟨⟨hlink, hrest⟩, hfirst, rfl⟩
        refine ⟨_, ⟨hlink, hfirst, rfl⟩, hrest, fun h => (Nat.succ_ne_zero _ h).elim, ?_⟩
        simp only [ScannedChain.mk.injEq, and_true]
        omega

variable {chain : ScannedChain}

theorem scanChain_eq_ok {seed : JsString} : scanChain codec rows seed expected = .ok chain ↔
      Linked (prevHashOf codec) codec.hashBytes seed (entriesOf codec rows) ∧
        (∀ bytes, (entriesOf codec rows).head? = some bytes →
          sequenceOf codec bytes = some expected) ∧
        chain = ⟨(entriesOf codec rows).length, lastSequenceOf codec (-1) (entriesOf codec rows),
          tip codec.hashBytes seed (entriesOf codec rows)⟩ := by
  rw [scanChain, scanRows_eq_ok]
  simp only [startChain, Nat.zero_add, forall_const]

variable {watermark : Option (EventLogWatermark R)} {head : EventHeadRecord}

theorem finishPass_eq_ok : finishPass watermark head chain = .ok ↔
      chain.entriesSeen = 0 ∧ watermark = none ∧ head.sequence = -1 ∨
        chain.entriesSeen ≠ 0 ∧ head.sequence ≠ -1 ∧ chain.lastSequence = head.sequence ∧
          chain.lastHash = head.lastHash := by
  have htail : verifyTailAgainstHead chain head = .ok ↔
      chain.entriesSeen = 0 ∧ head.sequence = -1 ∨ chain.entriesSeen ≠ 0 ∧ head.sequence ≠ -1 ∧
        chain.lastSequence = head.sequence ∧ chain.lastHash = head.lastHash := by
    by_cases hempty : head.sequence = -1
    · by_cases hseen : chain.entriesSeen = 0 <;>
        simp [verifyTailAgainstHead, EMPTY_EVENT_HEAD, hempty, hseen]
    · by_cases hseen : chain.entriesSeen = 0
      · simp [verifyTailAgainstHead, EMPTY_EVENT_HEAD, hempty, hseen]
      · by_cases hlast : chain.lastSequence = head.sequence
        · by_cases hhash : chain.lastHash = head.lastHash <;>
            simp [verifyTailAgainstHead, EMPTY_EVENT_HEAD, hempty, hseen, hlast, hhash]
        · simp [verifyTailAgainstHead, EMPTY_EVENT_HEAD, hempty, hseen, hlast]
  cases watermark with
  | none => simp only [finishPass, htail, true_and]
  | some mark =>
    simp only [finishPass, reduceCtorEq, false_and, and_false, false_or]
    split_ifs with hseen
    · simp [hseen]
    · simp [htail, hseen]

/-- A pass succeeds on an empty log, and on a chain from the seed to the head. -/
theorem verifyAgainstSnapshot_eq_ok {s : Store V} {workflowId : Component} {entries : List V}
    (hentries : entriesOf codec ((scan s (KEYS.eventPrefix workflowId)
      (snapshotOptions workflowId watermark)).map (·.2)) = entries) :
    verifyAgainstSnapshot codec s workflowId watermark head = .ok ↔
      Linked (prevHashOf codec) codec.hashBytes (snapshotSeed watermark) entries ∧
        (∀ bytes, entries.head? = some bytes →
          sequenceOf codec bytes = some (expectedFirst watermark)) ∧
        (entries = [] ∧ watermark = none ∧ head.sequence = -1 ∨
          entries ≠ [] ∧ head.sequence ≠ -1 ∧ lastSequenceOf codec (-1) entries = head.sequence ∧
            tip codec.hashBytes (snapshotSeed watermark) entries = head.lastHash) := by
  have hpass : verifyAgainstSnapshot codec s workflowId watermark head = .ok ↔
      ∃ chain, scanChain codec ((scan s (KEYS.eventPrefix workflowId)
        (snapshotOptions workflowId watermark)).map (·.2)) (snapshotSeed watermark)
          (expectedFirst watermark) = .ok chain ∧ finishPass watermark head chain = .ok := by
    rw [verifyAgainstSnapshot]
    cases scanChain codec ((scan s (KEYS.eventPrefix workflowId)
        (snapshotOptions workflowId watermark)).map (·.2)) (snapshotSeed watermark)
        (expectedFirst watermark) with
    | error sequence => simp
    | ok chain => simp
  simp only [hpass, scanChain_eq_ok, finishPass_eq_ok, hentries]
  constructor
  · rintro ⟨chain, ⟨hlinked, hfirst, rfl⟩, hfinish⟩
    simp only [ne_eq, List.length_eq_zero_iff] at hfinish
    exact ⟨hlinked, hfirst, hfinish⟩
  · rintro ⟨hlinked, hfirst, hfinish⟩
    refine ⟨_, ⟨hlinked, hfirst, rfl⟩, ?_⟩
    simp only [ne_eq, List.length_eq_zero_iff]
    exact hfinish

end Weft.EventLog
