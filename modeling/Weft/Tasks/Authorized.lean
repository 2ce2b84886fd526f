import Weft.Tasks.Model

/-! Who may report a result over the long-poll interface. The handler of a submission compares the
submitter with the record in flight once, before it writes. Where there is no record it compares
nothing, and what it writes later asks for nothing. -/

namespace Weft.Tasks
open Weft.Lib

/-- The worker and the token by which an attempt has the task. -/
structure Claim where
  workerId : Nat
  attemptToken : Nat
deriving DecidableEq

def InflightRecord.claim (record : InflightRecord) : Claim :=
  ⟨record.workerId, record.attemptToken⟩

/-- The claim by which the operation is in flight. -/
def World.claim (w : World) : Option Claim := w.store.inflight.map (·.claim)

/-- A result that was sent. `read` is the claim that its handler found when it compared them. -/
structure Submission where
  claim : Claim
  read : Option Claim := none
deriving DecidableEq

/-- A server with the submissions that it got, each at the place of its handler. -/
structure Server where
  world : World := {}
  submitted : Nat → Option Submission := fun _ => none

inductive Act where
  | event (event : Event)
  /-- The process ends and another one starts on the same store. -/
  | restart
deriving DecidableEq

/-- What a new process has: the store, and the tokens that are out. -/
def restarted (w : World) : World := { now := w.now, store := w.store, tokens := w.tokens }

/-- Which submissions there are after an event. -/
def noted (s : Server) : Event → Nat → Option Submission
  | .report workerId attemptToken _ =>
    Function.update s.submitted s.world.calls.length (some { claim := ⟨workerId, attemptToken⟩ })
  | .proceed place true _ _ =>
    match s.world.calls[place]? with
    | some (.reporting _ _ _) =>
      Function.update s.submitted place
        ((s.submitted place).map fun submission => { submission with read := s.world.claim })
    | _ => s.submitted
  | _ => s.submitted

def serverMachine : Machine Server Act where
  step s act :=
    match act with
    | .event event => (taskMachine.step s.world event).map fun w => ⟨w, noted s event⟩
    | .restart => some { world := restarted s.world }

/-- The submission is of the worker and the attempt that have the claim. -/
def Submission.Holds (submission : Submission) (w : World) : Prop :=
  w.claim = some submission.claim

def Call.compares : Call → Bool
  | .reporting _ _ _ => true
  | _ => false

/-- The handler at `place` ends when it compares, and has changed nothing else: neither the records
of the task nor what the server has of it. -/
def TurnedAway (w w' : World) (place : Nat) : Prop :=
  (∃ call ∈ w.calls[place]?, call.compares = true) ∧
    w' = { w with calls := w.calls.set place .done }

/-- What the handler of a submission does when the store answers, it does for the holder of the
claim, and another submitter is turned away. When the store fails it changes nothing. -/
def OnlyForHolder (s : Server) : Act → Prop
  | .event (.proceed place ok worker poller) =>
    ∀ submission ∈ s.submitted place,
      ∀ w' ∈ taskMachine.step s.world (.proceed place ok worker poller),
        if ok = true then submission.Holds s.world ∨ TurnedAway s.world w' place
        else w' = { s.world with calls := w'.calls }
  | _ => True

/-- When the handler compares there is a record in flight, and when it writes the claim that it
found is still the one in flight. -/
def Submission.Stands (submission : Submission) (w : World) : Call → Prop
  | .reporting _ _ _ => w.claim ≠ none
  | .resolving _ _ => w.claim = submission.read
  | .burying _ => w.claim = submission.read
  | _ => True

def ClaimStands (s : Server) : Act → Prop
  | .event (.proceed place true _ _) =>
    ∀ submission ∈ s.submitted place, ∀ call ∈ s.world.calls[place]?,
      submission.Stands s.world call
  | _ => True

/-- What the handler of a submission has come to. -/
def Submission.Reached (submission : Submission) : Call → Prop
  | .reporting workerId attemptToken _ => submission.claim = ⟨workerId, attemptToken⟩
  | .resolving _ _ => submission.read = some submission.claim
  | .burying _ => submission.read = some submission.claim
  | .done => True
  | _ => False

/-- Every submission has a handler, and those that write have been compared with a claim. -/
def Compared (s : Server) : Prop :=
  ∀ place, ∀ submission ∈ s.submitted place,
    ∃ call ∈ s.world.calls[place]?, submission.Reached call

section proceed

variable {s : Server} {place : Nat} {worker poller : Option Nat} {submission : Submission}
  {call : Call}

variable {w' : World}

theorem onlyForHolder_answered_iff (hsubmitted : s.submitted place = some submission)
    (hstep : taskMachine.step s.world (.proceed place true worker poller) = some w') :
    OnlyForHolder s (.event (.proceed place true worker poller)) ↔
      submission.Holds s.world ∨ TurnedAway s.world w' place := by
  constructor
  · intro honly
    have hat := honly submission hsubmitted w' hstep
    rwa [if_pos rfl] at hat
  · intro hat submission' hsubmission' w'' hw''
    cases hsubmitted.symm.trans hsubmission'
    cases hstep.symm.trans hw''
    rwa [if_pos rfl]

theorem claimStands_answered_iff (hsubmitted : s.submitted place = some submission)
    (hcall : s.world.calls[place]? = some call) :
    ClaimStands s (.event (.proceed place true worker poller)) ↔
      submission.Stands s.world call := by
  constructor
  · intro hstands
    exact hstands submission hsubmitted call hcall
  · intro hat submission' hsubmission' call' hcall'
    cases hsubmitted.symm.trans hsubmission'
    cases hcall.symm.trans hcall'
    exact hat

variable {w : World}

theorem claim_of_inflight {r : InflightRecord} (hflight : w.store.inflight = some r) :
    w.claim = some r.claim := by
  unfold World.claim
  rw [hflight]
  rfl

theorem claim_eq_none_iff : w.claim = none ↔ w.store.inflight = none := by
  unfold World.claim
  rw [Option.map_eq_none_iff]

/-- Where there is a record in flight, the comparison lets the holder of its claim on and turns
everyone else away. -/
theorem resume_reporting (worker poller : Option Nat) {r : InflightRecord}
    (workerId attemptToken : Nat) (status : TaskStatus) (hflight : w.store.inflight = some r) :
    r.claim = ⟨workerId, attemptToken⟩ ∧
        (∃ record, (resume w worker poller (.reporting workerId attemptToken status)).2 =
          .resolving record 2) ∨ r.claim ≠ ⟨workerId, attemptToken⟩ ∧
        resume w worker poller (.reporting workerId attemptToken status) = (w, .done) := by
  have hclaim : r.claim = ⟨workerId, attemptToken⟩ ↔
      r.workerId = workerId ∧ r.attemptToken = attemptToken := by
    unfold InflightRecord.claim
    rw [Claim.mk.injEq]
  simp only [resume, hflight, Option.all_some, decide_eq_true_eq]
  by_cases heq : r.claim = ⟨workerId, attemptToken⟩
  · rw [if_pos (hclaim.1 heq)]
    exact .inl ⟨heq, _, rfl⟩
  · rw [if_neg (fun h => heq (hclaim.2 h))]
    exact .inr ⟨heq, rfl⟩

/-- Where there is none, it lets everyone on. -/
theorem resume_reporting_none (worker poller : Option Nat) (workerId attemptToken : Nat)
    (status : TaskStatus) (hflight : w.store.inflight = none) :
    ∃ record, (resume w worker poller (.reporting workerId attemptToken status)).2 =
      .resolving record 2 := by
  simp only [resume, hflight, Option.all_none, ↓reduceIte]
  exact ⟨_, rfl⟩

/-- The handler at a place is turned away only where its next stage is its end. -/
theorem next_of_turnedAway {w w' : World} {next : World × Call}
    (hcall : w.calls[place]? = some call)
    (hcalls : next.1.calls = w.calls) (hw' : w' = goOn place next) (haway : TurnedAway w w' place) :
    next.2 = .done := by
  have hlength : place < w.calls.length := (List.getElem?_eq_some_iff.1 hcall).1
  have hplaces : w.calls.set place next.2 = w.calls.set place .done := by
    rw [← goOn_calls hcalls, ← hw']
    exact congrArg World.calls haway.2
  have hat := congrArg (·[place]?) hplaces
  simpa [hlength] using hat

/-- When the store answers, the handler of a submission keeps to the holder exactly where the claim
stands, and is then at a stage that it may be at. -/
theorem answered {event : Event} (hevent : event = .proceed place true worker poller)
    (hsubmitted : s.submitted place = some submission) (hcall : s.world.calls[place]? = some call)
    (hreached : submission.Reached call) (hstep : taskMachine.step s.world event = some w') :
    (OnlyForHolder s (.event event) ↔ ClaimStands s (.event event)) ∧
      (ClaimStands s (.event event) → ∃ noted' ∈ noted s event place,
        ∃ next ∈ w'.calls[place]?, noted'.Reached next) := by
  subst hevent
  rw [onlyForHolder_answered_iff hsubmitted hstep, claimStands_answered_iff hsubmitted hcall]
  obtain ⟨call', hcall', hdone, ⟨-, hw'⟩ | ⟨hok, -⟩⟩ := step_proceed hstep
  swap
  · cases hok
  obtain rfl : call' = call := Option.some.inj (hcall'.symm.trans hcall)
  have hlength : place < s.world.calls.length := (List.getElem?_eq_some_iff.1 hcall).1
  have hnext : w'.calls[place]? =
      some (resume { s.world with store := call'.commit s.world.store } worker poller call').2 := by
    rw [hw', goOn_calls (resume_calls _ worker poller call')]
    exact List.getElem?_set_self hlength
  have hwriting : call'.compares = false → ¬ TurnedAway s.world w' place := by
    intro hcompares haway
    obtain ⟨c, hc, hcc⟩ := haway.1
    cases hcall.symm.trans hc
    rw [hcompares] at hcc
    cases hcc
  cases call' with
  | reporting workerId attemptToken status =>
    have hnoted : noted s (.proceed place true worker poller) place =
        some { submission with read := s.world.claim } := by
      simp only [noted, hcall, Function.update_self, hsubmitted, Option.map_some]
    have hclaim : submission.claim = ⟨workerId, attemptToken⟩ := hreached
    change (submission.Holds s.world ∨ _ ↔ s.world.claim ≠ none) ∧ (s.world.claim ≠ none → _)
    cases hflight : s.world.store.inflight with
    | none =>
      have hnone : s.world.claim = none := claim_eq_none_iff.2 hflight
      refine ⟨iff_of_false ?_ (fun h => h hnone), fun h => (h hnone).elim⟩
      rintro (hholds | haway)
      · rw [Submission.Holds, hnone] at hholds
        cases hholds
      · obtain ⟨record, hresolving⟩ := resume_reporting_none worker poller workerId
          attemptToken status hflight
        have hend := next_of_turnedAway hcall (resume_calls _ worker poller _) hw' haway
        rw [show (resume _ worker poller (.reporting workerId attemptToken status)).2 = _ from
          hresolving] at hend
        cases hend
    | some r =>
      have hsome : s.world.claim = some r.claim := claim_of_inflight hflight
      obtain ⟨heq, record, hresolving⟩ | ⟨hne, haway⟩ := resume_reporting worker poller
        workerId attemptToken status hflight
      · refine ⟨iff_of_true (.inl ?_) (by simp [hsome]), fun _ => ⟨_, hnoted, _, hnext, ?_⟩⟩
        · rw [Submission.Holds, hsome, hclaim, heq]
        · change Submission.Reached _ (resume s.world worker poller _).2
          rw [hresolving]
          change s.world.claim = some submission.claim
          rw [hsome, hclaim, heq]
      · have hw'' : w' = goOn place (s.world, .done) := by
          rw [hw', ← haway]
          rfl
        refine ⟨iff_of_true (.inr ⟨⟨_, hcall, rfl⟩, hw''⟩) (by simp [hsome]), fun _ => ?_⟩
        refine ⟨_, hnoted, .done, ?_, trivial⟩
        rw [hw'']
        exact List.getElem?_set_self hlength
  | resolving record tries =>
    have hread : submission.read = some submission.claim := hreached
    refine ⟨?_, fun _ => ⟨submission, ?_, .done, hnext, trivial⟩⟩
    · change _ ↔ s.world.claim = submission.read
      rw [or_iff_left (hwriting rfl), hread]
      rfl
    · simp only [noted, hcall]
      exact hsubmitted
  | burying tries =>
    have hread : submission.read = some submission.claim := hreached
    refine ⟨?_, fun _ => ⟨submission, ?_, .done, hnext, trivial⟩⟩
    · change _ ↔ s.world.claim = submission.read
      rw [or_iff_left (hwriting rfl), hread]
      rfl
    · simp only [noted, hcall]
      exact hsubmitted
  | done => exact (hdone rfl).elim
  | _ => exact hreached.elim

/-- While the store fails it changes nothing, and stays at a stage that it may be at. -/
theorem unanswered (hcall : s.world.calls[place]? = some call) (hreached : submission.Reached call)
    (hstep : taskMachine.step s.world (.proceed place false worker poller) = some w') :
    w' = { s.world with calls := w'.calls } ∧
      ∃ next ∈ w'.calls[place]?, submission.Reached next := by
  obtain ⟨call', hcall', hdone, ⟨hok, -⟩ | ⟨-, hw'⟩⟩ := step_proceed hstep
  · cases hok
  obtain rfl : call' = call := Option.some.inj (hcall'.symm.trans hcall)
  have hlength : place < s.world.calls.length := (List.getElem?_eq_some_iff.1 hcall).1
  have hnext : w'.calls[place]? = some (fail s.world call').2 := by
    rw [hw', goOn_calls (fail_calls s.world call')]
    exact List.getElem?_set_self hlength
  cases call' with
  | reporting workerId attemptToken status =>
    refine ⟨?_, .done, hnext, trivial⟩
    rw [hw']
    rfl
  | resolving record tries =>
    refine ⟨?_, _, hnext, ?_⟩
    · rw [hw']
      rfl
    · simp only [fail]
      split <;> exact hreached
  | burying tries =>
    refine ⟨?_, _, hnext, ?_⟩
    · rw [hw']
      rfl
    · simp only [fail]
      split
      · trivial
      · exact hreached
  | done => exact (hdone rfl).elim
  | _ => exact hreached.elim

end proceed

variable {s : Server}

theorem noted_other {place place' : Nat} (hne : place' ≠ place) :
    noted s (.proceed place ok worker poller) place' = s.submitted place' := by
  cases ok with
  | false => rfl
  | true =>
    simp only [noted]
    cases s.world.calls[place]? with
    | none => rfl
    | some call =>
      cases call with
      | reporting workerId attemptToken status => exact Function.update_of_ne hne _ _
      | _ => rfl

theorem noted_none (hsubmitted : s.submitted place = none) :
    noted s (.proceed place true worker poller) place = none := by
  simp only [noted]
  cases s.world.calls[place]? with
  | none => exact hsubmitted
  | some call =>
    cases call with
    | reporting workerId attemptToken status =>
      exact (Function.update_self _ _ _).trans (congrArg (Option.map _) hsubmitted)
    | _ => exact hsubmitted

/-- What one step does: it keeps to the holders exactly where the claims stand, and then the
submissions that may write have still been compared. -/
theorem compared_step {w' : World} {event : Event} (hcompared : Compared s)
    (hstep : taskMachine.step s.world event = some w') :
    (OnlyForHolder s (.event event) ↔ ClaimStands s (.event event)) ∧
      (ClaimStands s (.event event) → Compared ⟨w', noted s event⟩) := by
  by_cases hevent : ∃ place ok worker poller, event = .proceed place ok worker poller
  · obtain ⟨place, ok, worker, poller, rfl⟩ := hevent
    obtain ⟨next, hcalls⟩ := proceed_calls hstep
    have hothers : ∀ place' ≠ place,
      ∀ submission ∈ noted s (.proceed place ok worker poller) place',
        ∃ call ∈ w'.calls[place']?, submission.Reached call := by
      intro place' hne submission hsubmission
      rw [noted_other hne] at hsubmission
      obtain ⟨call, hcall, hreached⟩ := hcompared place' submission hsubmission
      refine ⟨call, ?_, hreached⟩
      rw [hcalls, List.getElem?_set_ne hne.symm]
      exact hcall
    cases hsubmitted : s.submitted place with
    | none =>
      have hnoted : noted s (.proceed place ok worker poller) place = none := by
        cases ok with
        | false => exact hsubmitted
        | true => exact noted_none hsubmitted
      refine ⟨iff_of_true ?_ ?_, fun _ place' submission hsubmission => ?_⟩
      · intro submission hsubmission
        rw [hsubmitted] at hsubmission
        cases hsubmission
      · cases ok with
        | false => trivial
        | true =>
          intro submission hsubmission
          rw [hsubmitted] at hsubmission
          cases hsubmission
      · by_cases hplace : place' = place
        · subst hplace
          cases hnoted.symm.trans hsubmission
        · exact hothers place' hplace submission hsubmission
    | some submission =>
      obtain ⟨call, hcall, hreached⟩ := hcompared place submission hsubmitted
      cases ok with
      | true =>
        obtain ⟨hiff, hnext⟩ := answered rfl hsubmitted hcall hreached hstep
        refine ⟨hiff, fun hstands place' submission' hsubmission' => ?_⟩
        by_cases hplace : place' = place
        · obtain ⟨noted', hnoted', hcalled⟩ := hnext hstands
          rw [hplace] at hsubmission' ⊢
          cases hsubmission'.symm.trans hnoted'
          exact hcalled
        · exact hothers place' hplace submission' hsubmission'
      | false =>
        obtain ⟨hsame, hcalled⟩ := unanswered hcall hreached hstep
        refine ⟨iff_of_true ?_ trivial, fun _ place' submission' hsubmission' => ?_⟩
        · intro submission' _ w'' hw''
          cases hstep.symm.trans hw''
          exact hsame
        · by_cases hplace : place' = place
          · rw [hplace] at hsubmission' ⊢
            cases hsubmission'.symm.trans hsubmitted
            exact hcalled
          · exact hothers place' hplace submission' hsubmission'
  · obtain ⟨more, hmore⟩ := step_calls hstep hevent
    have hkept : ∀ place' submission, s.submitted place' = some submission →
        ∃ call ∈ w'.calls[place']?, submission.Reached call := by
      intro place' submission hsubmission
      obtain ⟨call, hcall, hreached⟩ := hcompared place' submission hsubmission
      refine ⟨call, ?_, hreached⟩
      rw [hmore]
      exact (List.getElem?_append_left (List.getElem?_eq_some_iff.1 hcall).1).trans hcall
    cases event with
    | proceed place ok worker poller => exact (hevent ⟨place, ok, worker, poller, rfl⟩).elim
    | report workerId attemptToken status =>
      refine ⟨iff_of_true trivial trivial, fun _ place' submission hsubmission => ?_⟩
      cases hstep
      by_cases hplace : place' = s.world.calls.length
      · subst hplace
        change Function.update s.submitted _ _ _ = some submission at hsubmission
        rw [Function.update_self] at hsubmission
        cases hsubmission
        exact ⟨_, List.getElem?_concat_length, rfl⟩
      · change Function.update s.submitted _ _ _ = some submission at hsubmission
        rw [Function.update_of_ne hplace] at hsubmission
        exact hkept place' submission hsubmission
    | _ => exact ⟨iff_of_true trivial trivial, fun _ => hkept⟩

/-- From any state of the server, the store and the server's memory are kept to the holders of the
claim in every step exactly where, in every step, the claim of the submission stands. -/
theorem only_for_holder_iff (w : World) (run : List Act) :
    serverMachine.EveryStep OnlyForHolder { world := w } run ↔
      serverMachine.EveryStep ClaimStands { world := w } run := by
  have hinitial : ∀ v : World, Compared { world := v } := by
    intro v place submission hsubmission
    cases hsubmission
  have hstep : ∀ (s : Server) (act : Act) (s' : Server), Compared s →
      serverMachine.step s act = some s' →
      (OnlyForHolder s act ↔ ClaimStands s act) ∧ (ClaimStands s act → Compared s') := by
    intro s act s' hcompared hs'
    cases act with
    | restart =>
      obtain rfl := Option.some.inj hs'
      exact ⟨iff_of_true trivial trivial, fun _ => hinitial _⟩
    | event event =>
      obtain ⟨w', hw', rfl⟩ := Option.map_eq_some_iff.1 hs'
      exact compared_step hcompared hw'
  constructor
  · refine Machine.everyStep_of_invariant (I := Compared) ?_ (hinitial w)
    intro s act s' hcompared honly hs'
    obtain ⟨hiff, hnext⟩ := hstep s act s' hcompared hs'
    exact ⟨hnext (hiff.1 honly), hiff.1 honly⟩
  · refine Machine.everyStep_of_invariant (I := Compared) ?_ (hinitial w)
    intro s act s' hcompared hstands hs'
    obtain ⟨hiff, hnext⟩ := hstep s act s' hcompared hs'
    exact ⟨hnext hstands, hiff.2 hstands⟩

/-- A worker that never polled reports on the queued task. -/
def reportedByStranger : List Act :=
  [.event (.dispatch ⟨1, some 3, 10⟩ none), .event (.proceed 0 true none none),
    .event (.proceed 0 true none none), .event (.report 9 5 .completed),
    .event (.proceed 1 true none none), .event (.proceed 1 true none none)]

/-- Its result is taken: the task is resolved by it, and is still handed out after that. -/
theorem stranger_resolves : ¬ serverMachine.EveryStep OnlyForHolder {} reportedByStranger ∧
    (serverMachine.final {} reportedByStranger).world.store =
      { queued := some ⟨1, some 3, 10⟩
        resolved := some ⟨.completed, .completed⟩
        resolutions := 1 } := by
  constructor
  · intro honly
    -- the fifth step is the comparison, with no record in flight
    have hread := honly.2.2.2.2.1 ⟨⟨9, 5⟩, none⟩ rfl _ rfl
    rw [if_pos rfl] at hread
    obtain hholds | haway := hread
    · cases hholds
    · cases congrArg World.dispatched haway.2
  · rfl

end Weft.Tasks
