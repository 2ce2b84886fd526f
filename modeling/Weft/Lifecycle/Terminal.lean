import Weft.Visibility.Indexes
import Weft.Lib.Machine

/-! The stored state of a workflow and the writers that move it on. Each writer reads the state,
awaits and writes the whole record back; an engine's writes to one workflow go through its chain,
one after another, and all but tag edits are fenced on the lease. As long as no other engine writes
in the middle of a tag edit, a terminal status stays, and the terminal index has a row for exactly
the workflows that have one. -/

namespace Weft.Lifecycle
open Weft.Lib Weft.Visibility

universe u

/-- What of the record the writers read and write. -/
structure WorkflowState (ρ ε τ : Type u) where
  status : WorkflowStatus
  result : Option ρ := none
  error : Option ε := none
  tags : List τ := []
  startedAt : Option Nat := none
  updatedAt : Nat

def isTerminalWorkflowStatus : WorkflowStatus → Bool
  | .completed | .failed | .cancelled | .timedOut => true
  | .pending | .running | .suspended => false

def FORCIBLY_TERMINABLE_STATUSES : List WorkflowStatus := [.running, .pending, .suspended]

/-- A write operation that waits in the chain of a workflow. `retag` is what the tags become, where
they change. -/
inductive Writer (ρ ε τ : Type u) where
  | complete (result : ρ)
  | fail (error : ε)
  | terminate (timedOut : Bool)
  | suspend
  | resume
  | startDelayed
  | mutateTags (retag : List τ → Option (List τ))

/-- The writers of the engine that runs a workflow commit under its lease; tag edits come from any
caller and never do. -/
def Writer.fenced : Writer ρ ε τ → Bool
  | .mutateTags _ => false
  | _ => true

/-- The rows of the terminal index, by time and workflow. -/
abbrev TerminalIndex (ι : Type u) := List (Nat × ι)

variable {ι ρ ε τ : Type u} [DecidableEq ι]

/-- What a writer makes of the state it read; `none` where it writes nothing. -/
def Writer.update (writer : Writer ρ ε τ) (state : WorkflowState ρ ε τ) (now : Nat) :
    Option (WorkflowState ρ ε τ) :=
  match writer with
  | .complete result =>
    if state.status = .running then
      some { state with status := .completed, result := some result, updatedAt := now }
    else none
  | .fail error =>
    if state.status ∈ FORCIBLY_TERMINABLE_STATUSES then
      some { state with status := .failed, error := some error, updatedAt := now }
    else none
  | .terminate timedOut =>
    if state.status ∈ FORCIBLY_TERMINABLE_STATUSES then
      some { state with
        status := if timedOut then .timedOut else .cancelled
        updatedAt := now }
    else none
  | .suspend =>
    if state.status = .running then some { state with status := .suspended, updatedAt := now }
    else none
  | .resume =>
    if state.status = .suspended then some { state with status := .running, updatedAt := now }
    else none
  | .startDelayed =>
    if state.status = .pending then
      some { state with status := .running, startedAt := some now, updatedAt := now }
    else none
  | .mutateTags retag => (retag state.tags).map fun tags =>
      { state with tags := tags, updatedAt := now }

/-- Whether the batch of a writer has the operations on the terminal index. -/
def Writer.indexes : Writer ρ ε τ → Bool
  | .complete _ | .fail _ | .terminate _ | .mutateTags _ => true
  | .suspend | .resume | .startDelayed => false

/-- The row of the state before goes, then the row of the next one is put. -/
def buildTerminalWorkflowIndexOperations (index : TerminalIndex ι) (id : ι)
    (previousState nextState : WorkflowState ρ ε τ) : TerminalIndex ι :=
  let kept := if isTerminalWorkflowStatus previousState.status then
      index.filter (· ≠ (previousState.updatedAt, id))
    else index
  if isTerminalWorkflowStatus nextState.status then (nextState.updatedAt, id) :: kept else kept

/-- `workflowStateWriteChains`: the writers that wait for their turn, the first being at work;
`read` is what it has read. -/
structure Chain (ρ ε τ : Type u) where
  writers : List (Writer ρ ε τ) := []
  read : Option (WorkflowState ρ ε τ) := none

/-- Each engine has chains of its own. `owner` has the lease; under `ownership: 'none'` it is the
one engine that runs the workflows, and others only edit tags. -/
structure World (κ ι ρ ε τ : Type u) where
  store : ι → Option (WorkflowState ρ ε τ) := fun _ => none
  index : TerminalIndex ι := []
  chains : κ → ι → Chain ρ ε τ := fun _ _ => {}
  owner : κ

inductive Event (κ ι ρ ε τ : Type u) where
  /-- A workflow is created, running or delayed. -/
  | create (id : ι) (delayed : Bool) (tags : List τ) (now : Nat)
  | call (engine : κ) (id : ι) (writer : Writer ρ ε τ)
  /-- The writer at the head of the chain reads the state. -/
  | read (engine : κ) (id : ι) (ok : Bool)
  /-- It writes; `committed` says whether the batch takes effect, reported or not. -/
  | write (engine : κ) (id : ι) (now : Nat) (committed : Bool)
  /-- The process ends, and with it all that waits. -/
  | crash (engine : κ)
  /-- A new engine takes the lease. -/
  | acquire (engine : κ)

variable {κ : Type u} [DecidableEq κ]

/-- The writer at the head is done. -/
def Chain.next (chain : Chain ρ ε τ) : Chain ρ ε τ := ⟨chain.writers.tail, none⟩

def World.setChain (w : World κ ι ρ ε τ) (engine : κ) (id : ι) (chain : Chain ρ ε τ) :
    World κ ι ρ ε τ :=
  { w with chains := Function.update w.chains engine (Function.update (w.chains engine) id chain) }

def World.dropChains (w : World κ ι ρ ε τ) (engine : κ) : World κ ι ρ ε τ :=
  { w with chains := Function.update w.chains engine fun _ => {} }

/-- The commit of a writer is not refused: a fenced one needs the lease. -/
def World.admits (w : World κ ι ρ ε τ) (engine : κ) (writer : Writer ρ ε τ) : Bool :=
  !writer.fenced || engine = w.owner

def workflowMachine : Machine (World κ ι ρ ε τ) (Event κ ι ρ ε τ) where
  step := fun w event =>
    match event with
    | .create id delayed tags now =>
      match w.store id with
      | some _ => none
      | none => some { w with
          store := Function.update w.store id (some
            { status := if delayed then .pending else .running
              tags := tags
              startedAt := if delayed then none else some now
              updatedAt := now }) }
    | .call engine id writer =>
      some (w.setChain engine id
        ⟨(w.chains engine id).writers ++ [writer], (w.chains engine id).read⟩)
    | .read engine id ok =>
      match (w.chains engine id).writers, (w.chains engine id).read with
      | _ :: _, none =>
        match w.store id with
        | some state =>
          if ok then some (w.setChain engine id ⟨(w.chains engine id).writers, some state⟩)
          else some (w.setChain engine id (w.chains engine id).next)
        | none => some (w.setChain engine id (w.chains engine id).next)
      | _, _ => none
    | .write engine id now committed =>
      match (w.chains engine id).writers, (w.chains engine id).read with
      | writer :: _, some state =>
        let w' := w.setChain engine id (w.chains engine id).next
        match writer.update state now with
        | some next =>
          if committed && w.admits engine writer then some { w' with
            store := Function.update w.store id (some next)
            index := if writer.indexes then
                buildTerminalWorkflowIndexOperations w.index id state next
              else w.index }
          else some w'
        | none => some w'
      | _, _ => none
    | .crash engine => some (w.dropChains engine)
    | .acquire engine => some { w.dropChains engine with owner := engine }

/-! ## The properties -/

/-- A step leaves the status, the result and the error of a terminal workflow as they are. -/
def KeepsTerminal (w : World κ ι ρ ε τ) (event : Event κ ι ρ ε τ) : Prop :=
  ∀ w', workflowMachine.step w event = some w' → ∀ id state, w.store id = some state →
    isTerminalWorkflowStatus state.status = true → ∃ state', w'.store id = some state' ∧
      state'.status = state.status ∧ state'.result = state.result ∧ state'.error = state.error

/-- The terminal index has the row of each workflow that is stored as terminal and no other. -/
def IndexExact (w : World κ ι ρ ε τ) : Prop :=
  ∀ updatedAt id, (updatedAt, id) ∈ w.index ↔ ∃ state, w.store id = some state ∧
    isTerminalWorkflowStatus state.status = true ∧ state.updatedAt = updatedAt

/-- A tag edit is between its read and its write. -/
def Chain.editing (chain : Chain ρ ε τ) : Bool :=
  match chain.writers, chain.read with
  | .mutateTags _ :: _, some _ => true
  | _, _ => false

/-- No engine's write takes effect on a workflow while another engine is in the middle of a tag edit
of it. -/
def TagEditsApart (w : World κ ι ρ ε τ) : Event κ ι ρ ε τ → Prop
  | .write engine id now true => ∀ writer ∈ (w.chains engine id).writers.head?,
      ∀ state ∈ (w.chains engine id).read, (writer.update state now).isSome = true →
        w.admits engine writer = true →
          ∀ other, other ≠ engine → (w.chains other id).editing = false
  | _ => True

instance [Fintype κ] (w : World κ ι ρ ε τ) :
    (event : Event κ ι ρ ε τ) → Decidable (TagEditsApart w event)
  | .write _ _ _ true => inferInstanceAs (Decidable (∀ writer ∈ _, ∀ state ∈ _, _ → _ → _))
  | .write _ _ _ false => isTrue trivial
  | .create .. | .call .. | .read .. | .crash .. | .acquire .. => isTrue trivial

/-- Two records that agree in what is to be kept. -/
def WorkflowState.SameOutcome (state state' : WorkflowState ρ ε τ) : Prop :=
  state'.status = state.status ∧ state'.result = state.result ∧ state'.error = state.error

/-- What the owner has read still tells the stored outcome, and what a tag edit has read is what is
stored. -/
structure Inv (w : World κ ι ρ ε τ) : Prop where
  idle : ∀ engine id, (w.chains engine id).writers = [] → (w.chains engine id).read = none
  owned : ∀ id state, (w.chains w.owner id).read = some state →
    ∃ stored, w.store id = some stored ∧ state.SameOutcome stored
  edits : ∀ engine id state, (w.chains engine id).editing = true →
    (w.chains engine id).read = some state → w.store id = some state
  index : IndexExact w

variable {state next : WorkflowState ρ ε τ}

/-- What a writer can make of a state: a tag edit keeps all but the tags and the time, the others
leave a terminal one alone, and one becomes terminal only with a row in the index. -/
theorem update_cases {writer : Writer ρ ε τ} {now : Nat} (h : writer.update state now = some next) :
    (∃ retag, writer = .mutateTags retag ∧ state.SameOutcome next) ∨
      writer.fenced = true ∧ isTerminalWorkflowStatus state.status = false ∧
        (writer.indexes = true ∨ isTerminalWorkflowStatus next.status = false) := by
  have hforcible : ∀ status, status ∈ FORCIBLY_TERMINABLE_STATUSES →
      isTerminalWorkflowStatus status = false := by
    intro status hmem
    simp only [FORCIBLY_TERMINABLE_STATUSES, List.mem_cons, List.not_mem_nil, or_false] at hmem
    rcases hmem with rfl | rfl | rfl <;> rfl
  cases writer with
  | complete result =>
    simp only [Writer.update] at h
    split_ifs at h with hstatus
    exact .inr ⟨rfl, by rw [hstatus]; rfl, .inl rfl⟩
  | fail error =>
    simp only [Writer.update] at h
    split_ifs at h with hstatus
    exact .inr ⟨rfl, hforcible _ hstatus, .inl rfl⟩
  | terminate timedOut =>
    simp only [Writer.update] at h
    split_ifs at h with hstatus
    · exact .inr ⟨rfl, hforcible _ hstatus, .inl rfl⟩
    · exact .inr ⟨rfl, hforcible _ hstatus, .inl rfl⟩
  | suspend =>
    simp only [Writer.update] at h
    split_ifs at h with hstatus
    cases h
    exact .inr ⟨rfl, by rw [hstatus]; rfl, .inr rfl⟩
  | resume =>
    simp only [Writer.update] at h
    split_ifs at h with hstatus
    cases h
    exact .inr ⟨rfl, by rw [hstatus]; rfl, .inr rfl⟩
  | startDelayed =>
    simp only [Writer.update] at h
    split_ifs at h with hstatus
    cases h
    exact .inr ⟨rfl, by rw [hstatus]; rfl, .inr rfl⟩
  | mutateTags retag =>
    obtain ⟨tags, -, rfl⟩ := Option.map_eq_some_iff.1 h
    exact .inl ⟨retag, rfl, rfl, rfl, rfl⟩

/-! ## Writes -/

theorem mem_buildTerminalWorkflowIndexOperations {index : TerminalIndex ι} {id workflowId : ι}
    {previousState nextState : WorkflowState ρ ε τ} {updatedAt : Nat} :
    (updatedAt, workflowId) ∈
        buildTerminalWorkflowIndexOperations index id previousState nextState ↔
      isTerminalWorkflowStatus nextState.status = true ∧ updatedAt = nextState.updatedAt ∧
          workflowId = id ∨
        (updatedAt, workflowId) ∈ index ∧ ¬ (isTerminalWorkflowStatus previousState.status = true ∧
          updatedAt = previousState.updatedAt ∧ workflowId = id) := by
  unfold buildTerminalWorkflowIndexOperations
  cases isTerminalWorkflowStatus nextState.status <;>
    cases isTerminalWorkflowStatus previousState.status <;> simp [imp_iff_not_or]

variable {w w' : World κ ι ρ ε τ}

theorem setChain_chains (engine other : κ) (id workflowId : ι) (chain : Chain ρ ε τ) :
    (w.setChain engine id chain).chains other workflowId =
      if other = engine ∧ workflowId = id then chain else w.chains other workflowId := by
  unfold World.setChain
  by_cases hengine : other = engine
  · by_cases hid : workflowId = id
    · simp [hengine, hid]
    · simp [hengine, hid]
  · simp [hengine]

omit [DecidableEq κ] in
theorem indexExact_update (h : IndexExact w) {id : ι} {index : TerminalIndex ι}
    (hstore : w.store id = some state)
    (hstore' : w'.store = Function.update w.store id (some next)) (hindex' : w'.index = index)
    (hindex : index = buildTerminalWorkflowIndexOperations w.index id state next ∨
      index = w.index ∧ isTerminalWorkflowStatus state.status = false ∧
      isTerminalWorkflowStatus next.status = false) : IndexExact w' := by
  intro updatedAt workflowId
  rw [hstore', hindex']
  by_cases hid : workflowId = id
  · rw [hid, Function.update_self]
    have hold : (updatedAt, id) ∈ w.index ↔
        isTerminalWorkflowStatus state.status = true ∧ state.updatedAt = updatedAt := by
      rw [h updatedAt id, hstore]
      simp
    have hnext : (∃ s, some next = some s ∧ isTerminalWorkflowStatus s.status = true ∧
        s.updatedAt = updatedAt) ↔
        isTerminalWorkflowStatus next.status = true ∧ next.updatedAt = updatedAt := by
      simp
    rw [hnext]
    rcases hindex with rfl | ⟨rfl, hstate, hrest⟩
    · rw [mem_buildTerminalWorkflowIndexOperations, hold]
      constructor
      · rintro (⟨hterminal, rfl, -⟩ | ⟨⟨hterminal, rfl⟩, hnot⟩)
        · exact ⟨hterminal, rfl⟩
        · exact (hnot ⟨hterminal, rfl, rfl⟩).elim
      · rintro ⟨hterminal, rfl⟩
        exact .inl ⟨hterminal, rfl, rfl⟩
    · rw [hold, hstate, hrest]
      simp
  · rw [Function.update_of_ne hid, ← h updatedAt workflowId]
    rcases hindex with rfl | ⟨rfl, -, -⟩
    · rw [mem_buildTerminalWorkflowIndexOperations]
      constructor
      · rintro (⟨-, -, heq⟩ | ⟨hrow, -⟩)
        · exact (hid heq).elim
        · exact hrow
      · exact fun hrow => .inr ⟨hrow, fun hgone => hid hgone.2.2⟩
    · exact Iff.rfl

/-- A chain goes on without a write: what its head has read, it has read just now or before. -/
theorem Inv.setChain (h : Inv w) {engine : κ} {id : ι} {chain : Chain ρ ε τ}
    (hidle : chain.writers = [] → chain.read = none)
    (hread : ∀ state, chain.read = some state → w.store id = some state ∨
      (w.chains engine id).read = some state ∧ (w.chains engine id).editing = chain.editing) :
    Inv (w.setChain engine id chain) where
  idle := by
    intro other workflowId hwriters
    rw [setChain_chains] at hwriters ⊢
    split_ifs at hwriters ⊢
    · exact hidle hwriters
    · exact h.idle other workflowId hwriters
  owned := by
    intro workflowId state hstate
    rw [setChain_chains] at hstate
    split_ifs at hstate with hsame
    · obtain ⟨howner, rfl⟩ := hsame
      obtain hstore | ⟨hold, -⟩ := hread state hstate
      · exact ⟨state, hstore, rfl, rfl, rfl⟩
      · exact h.owned workflowId state (howner ▸ hold)
    · exact h.owned workflowId state hstate
  edits := by
    intro other workflowId state hediting hstate
    rw [setChain_chains] at hediting hstate
    split_ifs at hediting hstate with hsame
    · obtain ⟨rfl, rfl⟩ := hsame
      obtain hstore | ⟨hold, hsame⟩ := hread state hstate
      · exact hstore
      · exact h.edits other workflowId state (hsame ▸ hediting) hold
    · exact h.edits other workflowId state hediting hstate
  index := h.index

theorem Inv.pass (h : Inv w) (engine : κ) (id : ι) :
    Inv (w.setChain engine id (w.chains engine id).next) :=
  h.setChain (fun _ => rfl) fun _ hread => by cases hread

omit [DecidableEq ι] in
theorem Inv.dropChains (h : Inv w) (engine : κ) : Inv (w.dropChains engine) := by
  have hchains (other : κ) : (w.dropChains engine).chains other = fun id =>
      if other = engine then {} else w.chains other id := by
    by_cases hengine : other = engine
    · simp [World.dropChains, hengine]
    · simp [World.dropChains, hengine]
  refine ⟨fun other id hwriters => ?_, fun id state hread => ?_,
    fun other id state hediting hread => ?_, h.index⟩
  · rw [hchains] at hwriters ⊢
    dsimp only at hwriters ⊢
    split_ifs at hwriters ⊢
    · rfl
    · exact h.idle other id hwriters
  · rw [hchains] at hread
    dsimp only at hread
    split_ifs at hread
    exact h.owned id state hread
  · rw [hchains] at hediting hread
    dsimp only at hediting hread
    split_ifs at hediting hread
    exact h.edits other id state hediting hread

omit [DecidableEq ι] in
theorem Inv.acquire (h : Inv w) (engine : κ) :
    Inv { w.dropChains engine with owner := engine } := by
  refine ⟨(h.dropChains engine).idle, fun id state hread => ?_, (h.dropChains engine).edits,
    h.index⟩
  replace hread : ((w.dropChains engine).chains engine id).read = some state := hread
  simp [World.dropChains] at hread

omit [DecidableEq κ] in
theorem Inv.create (h : Inv w) {id : ι} (hnone : w.store id = none)
    (hstate : isTerminalWorkflowStatus state.status = false) :
    Inv { w with store := Function.update w.store id (some state) } := by
  have hother {workflowId : ι} {stored : WorkflowState ρ ε τ}
      (hstore : w.store workflowId = some stored) :
      Function.update w.store id (some state) workflowId = some stored := by
    refine (Function.update_of_ne (fun hid => ?_) _ _).trans hstore
    rw [hid, hnone] at hstore
    cases hstore
  refine ⟨h.idle, fun workflowId read hread => ?_,
    fun engine workflowId read hediting hread =>
      hother (h.edits engine workflowId read hediting hread),
    fun updatedAt workflowId => ?_⟩
  · obtain ⟨stored, hstore, hsame⟩ := h.owned workflowId read hread
    exact ⟨stored, hother hstore, hsame⟩
  · show (updatedAt, workflowId) ∈ w.index ↔
      ∃ s, Function.update w.store id _ workflowId = some s ∧ _
    rw [h.index updatedAt workflowId]
    by_cases hid : workflowId = id
    · rw [hid, Function.update_self, hnone]
      simp [hstate]
    · rw [Function.update_of_ne hid]

variable {writer : Writer ρ ε τ} {writers : List (Writer ρ ε τ)} {engine : κ} {id : ι} {now : Nat}

omit [DecidableEq ι] in
/-- A write that is not refused finds the outcome that its writer has read, and a tag edit the
whole record. -/
theorem Inv.stored (h : Inv w) (hwriters : (w.chains engine id).writers = writer :: writers)
    (hread : (w.chains engine id).read = some state) (hadmits : w.admits engine writer = true) :
    ∃ stored, w.store id = some stored ∧ state.SameOutcome stored ∧
      (writer.fenced = false → stored = state) := by
  cases hfenced : writer.fenced with
  | true =>
    have howner : engine = w.owner := by
      simpa [World.admits, hfenced] using hadmits
    obtain ⟨stored, hstore, hsame⟩ := h.owned id state (howner ▸ hread)
    exact ⟨stored, hstore, hsame, fun hfalse => by cases hfalse⟩
  | false =>
    have hediting : (w.chains engine id).editing = true := by
      cases writer with
      | mutateTags retag => simp [Chain.editing, hwriters, hread]
      | _ => cases hfenced
    exact ⟨state, h.edits engine id state hediting hread, ⟨rfl, rfl, rfl⟩, fun _ => rfl⟩

omit [DecidableEq ι] in
/-- What a write makes of the outcome. -/
theorem Inv.outcome (h : Inv w) (hwriters : (w.chains engine id).writers = writer :: writers)
    (hread : (w.chains engine id).read = some state) (hadmits : w.admits engine writer = true)
    (hupdate : writer.update state now = some next) :
    ∃ stored, w.store id = some stored ∧ (stored.SameOutcome next ∧ stored = state ∧
        writer.indexes = true ∨
      isTerminalWorkflowStatus stored.status = false ∧
        isTerminalWorkflowStatus state.status = false ∧
        (writer.indexes = true ∨ isTerminalWorkflowStatus next.status = false) ∧
        engine = w.owner) := by
  obtain ⟨stored, hstore, hsame, hwhole⟩ := h.stored hwriters hread hadmits
  obtain ⟨retag, rfl, hnext⟩ | ⟨hfenced, hrunning, hindexes⟩ := update_cases hupdate
  · obtain rfl := hwhole rfl
    exact ⟨stored, hstore, .inl ⟨hnext, rfl, rfl⟩⟩
  · refine ⟨stored, hstore, .inr ⟨hsame.1 ▸ hrunning, hrunning, hindexes, ?_⟩⟩
    simpa [World.admits, hfenced] using hadmits

/-- What a write makes of the record and of the index. -/
theorem Inv.write (h : Inv w) (hwriters : (w.chains engine id).writers = writer :: writers)
    (hread : (w.chains engine id).read = some state) (hadmits : w.admits engine writer = true)
    (hupdate : writer.update state now = some next)
    (hapart : ∀ other, other ≠ engine → (w.chains other id).editing = false) :
    Inv { w.setChain engine id (w.chains engine id).next with
      store := Function.update w.store id (some next)
      index := if writer.indexes then buildTerminalWorkflowIndexOperations w.index id state next
        else w.index } := by
  have hnext := h.pass engine id
  have hdone : ((w.setChain engine id (w.chains engine id).next).chains engine id).read = none := by
    rw [setChain_chains, if_pos ⟨rfl, rfl⟩]
    rfl
  obtain ⟨stored, hstore, houtcome⟩ := h.outcome hwriters hread hadmits hupdate
  refine ⟨hnext.idle, fun workflowId read hstate => ?_,
    fun other workflowId read hediting hstate => ?_, ?_⟩
  · show ∃ s, Function.update w.store id (some next) workflowId = some s ∧ _
    by_cases hid : workflowId = id
    · rw [hid, Function.update_self]
      -- The owner has read its own record only where the write is another engine's tag edit.
      obtain ⟨hsame, -⟩ | ⟨-, -, -, rfl⟩ := houtcome
      · obtain ⟨stored', hstore', hsame'⟩ := hnext.owned workflowId read hstate
        rw [hid] at hstore'
        obtain rfl : stored = stored' := Option.some.inj (hstore.symm.trans hstore')
        exact ⟨next, rfl, hsame.1.trans hsame'.1, hsame.2.1.trans hsame'.2.1,
          hsame.2.2.trans hsame'.2.2⟩
      · rw [hid] at hstate
        exact absurd (hdone.symm.trans hstate) (by simp)
    · rw [Function.update_of_ne hid]
      exact hnext.owned workflowId read hstate
  · show Function.update w.store id (some next) workflowId = some read
    by_cases hid : workflowId = id
    · rw [hid] at hediting hstate
      by_cases hengine : other = engine
      · rw [hengine] at hstate
        exact absurd (hdone.symm.trans hstate) (by simp)
      · replace hediting : ((w.setChain engine id (w.chains engine id).next).chains other
          id).editing =
            true := hediting
        rw [setChain_chains, if_neg fun hsame => hengine hsame.1, hapart other hengine] at hediting
        cases hediting
    · rw [Function.update_of_ne hid]
      exact hnext.edits other workflowId read hediting hstate
  · refine indexExact_update h.index hstore rfl rfl ?_
    obtain ⟨-, rfl, hindexes⟩ | ⟨hstored, hstate, hindexes, -⟩ := houtcome
    · exact .inl (if_pos hindexes)
    · by_cases hwriter : writer.indexes = true
      · left
        rw [if_pos hwriter]
        unfold buildTerminalWorkflowIndexOperations
        rw [hstored, hstate]
        rfl
      · exact .inr ⟨if_neg hwriter, hstored, hindexes.resolve_left hwriter⟩

/-! ## Steps -/

/-- The steps, by what they do to the store. -/
theorem Inv.step {event : Event κ ι ρ ε τ} (h : Inv w) (hapart : TagEditsApart w event)
    (hstep : workflowMachine.step w event = some w') :
    Inv w' ∧ (w'.store = w.store ∨
      (∃ id state, w.store id = none ∧ w'.store = Function.update w.store id (some state)) ∨
      ∃ id stored next, w.store id = some stored ∧
        (stored.SameOutcome next ∨ isTerminalWorkflowStatus stored.status = false) ∧
        w'.store = Function.update w.store id (some next)) := by
  cases event with
  | create id delayed tags now =>
    simp only [workflowMachine] at hstep
    cases hstore : w.store id with
    | some state =>
      rw [hstore] at hstep
      cases hstep
    | none =>
      rw [hstore] at hstep
      cases hstep
      refine ⟨h.create hstore ?_, .inr (.inl ⟨id, _, hstore, rfl⟩)⟩
      cases delayed <;> rfl
  | call engine id writer =>
    cases hstep
    refine ⟨h.setChain (fun hnil => by simp at hnil) fun state hread => .inr ⟨hread, ?_⟩, .inl rfl⟩
    replace hread : (w.chains engine id).read = some state := hread
    cases hwriters : (w.chains engine id).writers with
    | nil =>
      rw [h.idle engine id hwriters] at hread
      cases hread
    | cons head writers => cases head <;> simp [Chain.editing, hwriters, hread]
  | read engine id ok =>
    simp only [workflowMachine] at hstep
    split at hstep
    · rename_i writer writers hwriters hread
      split at hstep
      · rename_i state hstore
        split_ifs at hstep with hok
        · cases hstep
          refine ⟨h.setChain (fun hnil => ?_) fun read hread => .inl ?_, .inl rfl⟩
          · rw [hwriters] at hnil
            cases hnil
          · rw [← Option.some.inj hread]
            exact hstore
        · cases hstep
          exact ⟨h.pass engine id, .inl rfl⟩
      · cases hstep
        exact ⟨h.pass engine id, .inl rfl⟩
    · cases hstep
  | write engine id now committed =>
    simp only [workflowMachine] at hstep
    split at hstep
    · rename_i writer writers state hwriters hread
      split at hstep
      · rename_i next hupdate
        by_cases htakes : (committed && w.admits engine writer) = true
        · rw [if_pos htakes] at hstep
          cases hstep
          obtain ⟨rfl, hadmits⟩ := Bool.and_eq_true_iff.1 htakes
          have hothers : ∀ other, other ≠ engine → (w.chains other id).editing = false :=
            hapart writer (by rw [hwriters]; rfl) state hread (by rw [hupdate]; rfl) hadmits
          obtain ⟨stored, hstore, houtcome⟩ := h.outcome hwriters hread hadmits hupdate
          refine ⟨h.write hwriters hread hadmits hupdate hothers,
            .inr (.inr ⟨id, stored, next, hstore, ?_, rfl⟩)⟩
          exact houtcome.imp And.left And.left
        · rw [if_neg htakes] at hstep
          cases hstep
          exact ⟨h.pass engine id, .inl rfl⟩
      · cases hstep
        exact ⟨h.pass engine id, .inl rfl⟩
    · cases hstep
  | crash engine =>
    cases hstep
    exact ⟨h.dropChains engine, .inl rfl⟩
  | acquire engine =>
    cases hstep
    exact ⟨h.acquire engine, .inl rfl⟩

theorem Inv.keepsTerminal {event : Event κ ι ρ ε τ} (h : Inv w) (hapart : TagEditsApart w event) :
    KeepsTerminal w event := by
  intro w' hstep id state hstore hterminal
  obtain ⟨-, hsame | ⟨id', state', hnone, hput⟩ | ⟨id', stored, next, hstored, houtcome, hput⟩⟩ :=
    h.step hapart hstep
  · exact ⟨state, hsame ▸ hstore, rfl, rfl, rfl⟩
  · refine ⟨state, ?_, rfl, rfl, rfl⟩
    rw [hput, Function.update_of_ne, hstore]
    intro hid
    rw [hid, hnone] at hstore
    cases hstore
  · by_cases hid : id = id'
    · rw [hid, hstored] at hstore
      cases hstore
      rw [hput, hid, Function.update_self]
      obtain hsame | hrunning := houtcome
      · exact ⟨next, rfl, hsame⟩
      · rw [hterminal] at hrunning
        cases hrunning
    · exact ⟨state, by rw [hput, Function.update_of_ne hid, hstore], rfl, rfl, rfl⟩

/-- Whatever the interleaving, with each tag edit apart from the writes of other engines: a terminal
status stays with its result and its error, and the terminal index has exactly the rows of the
workflows that are stored as terminal. -/
theorem terminal_absorbing {owner : κ} {events : List (Event κ ι ρ ε τ)}
    (hapart : workflowMachine.EveryStep TagEditsApart
      ({ owner := owner } : World κ ι ρ ε τ) events) :
    workflowMachine.EveryStep KeepsTerminal ({ owner := owner } : World κ ι ρ ε τ) events ∧
      workflowMachine.EveryState IndexExact ({ owner := owner } : World κ ι ρ ε τ) events := by
  have hinit : Inv ({ owner := owner } : World κ ι ρ ε τ) :=
    ⟨fun _ _ _ => rfl, fun _ _ hread => (by cases hread), fun _ _ _ _ hread => (by cases hread),
      fun _ _ => ⟨fun hrow => (by cases hrow), fun ⟨_, hstore, _⟩ => (by cases hstore)⟩⟩
  constructor
  · exact Machine.everyStep_of_invariant (fun _ _ _ (hw : Inv _) hevent hstep =>
      ⟨(hw.step hevent hstep).1, hw.keepsTerminal hevent⟩) hinit hapart
  · exact Machine.EveryState.mono (fun _ (hw : Inv _) => hw.index)
      (Machine.everyState_of_invariant (fun _ _ _ hw hevent hstep => (hw.step hevent hstep).1)
        hinit hapart)

/-! ## Two engines -/

def approve : List String → Option (List String) := fun tags => some ("approved" :: tags)

/-- The first engine loses the lease in the middle of a suspend; the second one completes the
workflow, and both edit its tags. -/
def takenOver : List (Event Bool Nat String String String) :=
  [.create 7 false [] 10, .call true 7 (.mutateTags approve), .read true 7 true,
    .write true 7 20 true,
    .call false 7 .suspend, .read false 7 true, .acquire true, .call true 7 (.complete "sum"),
    .read true 7 true, .write true 7 30 true, .write false 7 40 true,
    .call false 7 (.mutateTags approve), .read false 7 true, .write false 7 50 true]

theorem terminal_absorbing_taken_over :
    (workflowMachine.EveryStep KeepsTerminal
        ({ owner := false } : World Bool Nat String String String) takenOver ∧
      workflowMachine.EveryState IndexExact
        ({ owner := false } : World Bool Nat String String String) takenOver) ∧
    (workflowMachine.final ({ owner := false } : World Bool Nat String String String)
      takenOver).index = [(50, 7)] := by
  exact ⟨terminal_absorbing (by decide +kernel), rfl⟩

/-- Another process has read the running workflow for a tag edit when the owner completes it. -/
def completedMeanwhile : List (Event Bool Nat String String String) :=
  [.create 7 false [] 10, .call true 7 (.mutateTags approve), .read true 7 true,
    .call false 7 (.complete "sum"), .read false 7 true, .write false 7 20 true,
    .write true 7 30 true]

theorem terminal_overwritten :
    ¬ workflowMachine.EveryStep KeepsTerminal
      ({ owner := false } : World Bool Nat String String String) completedMeanwhile := by
  intro h
  obtain ⟨-, -, -, -, -, -, hlast, -⟩ := h
  obtain ⟨state', hstore, hstatus, -⟩ := hlast _ rfl 7 _ rfl rfl
  cases hstore
  cases hstatus

end Weft.Lifecycle
