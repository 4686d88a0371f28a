import TokenSearch.Proofs.EngineStep

/-!
# The calls of a store

A ledger is a store that writes down each call it receives, with the result. An engine does the
same with a store and with its ledger, so the ledger shows how a run uses the store: every
accepted request makes one call, in the order of the run, and its outcome tells the result of
just that call; all other operations make none.
-/

namespace TokenSearch

/-- A document given to a store, and what came of it. -/
structure StoreCall where
  document : Document
  result : Except StoreFault Unit

/-- A store with the calls that it has received, oldest first. -/
structure Ledger (σ : Type) where
  store : σ
  calls : List StoreCall := []

variable {σ : Type} [DocumentStore σ]

instance : DocumentStore (Ledger σ) where
  persist document ledger :=
    let (result, store) := DocumentStore.persist document ledger.store
    (result, ⟨store, ledger.calls ++ [⟨document, result⟩]⟩)

/-- An operation requests the document of a call, and its outcome tells the result of the call:
it names the document as indexed when the call succeeded, and has the fault of the call
otherwise. -/
structure Answers (operation : Operation) (call : StoreCall) (outcome : Outcome) : Prop where
  requests : operation.Requests call.document
  success (id : DocId) : outcome.indexed? = some id ↔ id = call.document.id ∧ call.result = .ok ()
  failure (fault : StoreFault) (h : call.result = .error fault) :
    outcome = operation.failure (.ofStoreFault fault)

/-- The operations of a run with their outcomes go with calls of the store: each operation that
requests a document has the next call, and the others have none and report no document. -/
inductive Recounts : List Operation → List Outcome → List StoreCall → Prop
  | nil : Recounts [] [] []
  | idle {operation outcome operations outcomes calls}
    (hrequests : ∀ document, ¬operation.Requests document) (houtcome : outcome.indexed? = none)
    (hrest : Recounts operations outcomes calls) :
    Recounts (operation :: operations) (outcome :: outcomes) calls
  | call {operation call outcome operations outcomes calls}
    (hanswers : Answers operation call outcome)
    (hrest : Recounts operations outcomes calls) :
    Recounts (operation :: operations) (outcome :: outcomes) (call :: calls)

/-- The documents of the calls are the accepted ones. -/
theorem Recounts.documents {operations : List Operation} {outcomes : List Outcome}
    {calls : List StoreCall} (h : Recounts operations outcomes calls) :
    calls.map StoreCall.document = accepted operations := by
  induction h with
  | nil => rfl
  | @idle operation outcome operations outcomes calls hrequests houtcome hrest ih =>
    have hnone : operation.document? = none :=
      Option.eq_none_iff_forall_ne_some.2 fun document h =>
        hrequests document (Operation.requests_iff.2 h)
    rw [ih, accepted, accepted, List.filterMap_cons_none hnone]
  | call hanswers hrest ih =>
    rw [List.map_cons, ih, accepted, accepted,
      List.filterMap_cons_some (Operation.requests_iff.1 hanswers.requests)]

namespace Engine

/-- An engine that writes down the calls of its store from now on. -/
def logged (engine : Engine σ) : Engine (Ledger σ) := ⟨engine.index, ⟨engine.store, []⟩⟩

/-- An engine that writes down no more calls. -/
def unlogged (engine : Engine (Ledger σ)) : Engine σ := ⟨engine.index, engine.store.store⟩

/-- Recording a document makes a single call. -/
theorem calls_record (document : Document) (engine : Engine (Ledger σ)) :
    (engine.record document).2.store.calls =
      engine.store.calls ++ [⟨document, (DocumentStore.persist document engine.store).1⟩] :=
  rfl

/-- Writing down the calls makes no difference to an operation. -/
theorem perform_unlogged (operation : Operation) (engine : Engine (Ledger σ)) :
    engine.unlogged.perform operation =
      ((engine.perform operation).1, (engine.perform operation).2.unlogged) := by
  cases operation with
  | execute line =>
    simp only [perform, execute]
    cases Command.parse line with
    | error fault => rfl
    | ok command => cases command <;> rfl
  | index id tokens =>
    simp only [perform, indexDocument]
    cases checkTokens tokens with
    | error fault => rfl
    | ok tokens =>
      have hrecord : engine.unlogged.record ⟨id, tokens⟩ =
        ((engine.record ⟨id, tokens⟩).1, (engine.record ⟨id, tokens⟩).2.unlogged) := rfl
      simp only [hrecord]
      rcases engine.record ⟨id, tokens⟩ with ⟨fault | done, after⟩ <;> rfl
  | query expression => rfl

/-- Writing down the calls makes no difference to a run. -/
theorem run_unlogged (operations : List Operation) (engine : Engine (Ledger σ)) :
    engine.unlogged.run operations =
      ((engine.run operations).1, (engine.run operations).2.unlogged) := by
  induction operations generalizing engine with
  | nil => rfl
  | cons operation operations ih => simp only [run, perform_unlogged, ih]

/-- An operation either requests nothing and makes no call, or it makes one and tells its
result. -/
theorem recounts_perform (operation : Operation) (engine : Engine (Ledger σ)) :
    ((∀ document, ¬operation.Requests document) ∧
      (engine.perform operation).1.indexed? = none ∧
      (engine.perform operation).2.store.calls = engine.store.calls) ∨
    ∃ call, Answers operation call (engine.perform operation).1 ∧
      (engine.perform operation).2.store.calls = engine.store.calls ++ [call] := by
  have heffect := effect_perform operation engine
  generalize engine.perform operation = after at heffect ⊢
  have hsilent {outcome : Outcome}
      (hcommand : ∀ document, operation.command ≠ .ok (.index document))
      (houtcome : outcome.indexed? = none) :
      (∀ document, ¬operation.Requests document) ∧ outcome.indexed? = none ∧
        engine.store.calls = engine.store.calls :=
    ⟨fun document h => hcommand document (Operation.requests_iff_command.1 h), houtcome, rfl⟩
  cases heffect with
  | refused fault hcommand =>
    exact .inl (hsilent (by simp [hcommand]) (operation.indexed?_failure fault))
  | unreadable expression fault hcommand hparse =>
    exact .inl (hsilent (by simp [hcommand]) (operation.indexed?_failure (.parse fault)))
  | answered expression e outcome hcommand hparse houtcome =>
    exact .inl (hsilent (by simp [hcommand]) (outcome.indexed?_of_found? houtcome))
  | kept document outcome hcommand hpersist houtcome =>
    refine .inr ⟨⟨document, .ok ()⟩, ⟨Operation.requests_iff_command.2 hcommand, ?_, ?_⟩, ?_⟩
    · simp [houtcome, eq_comm]
    · intro fault h
      cases h
    · rw [calls_record, hpersist]
  | failed document fault hcommand hpersist =>
    refine .inr ⟨⟨document, .error fault⟩, ⟨Operation.requests_iff_command.2 hcommand, ?_, ?_⟩, ?_⟩
    · simp
    · intro _ h
      cases h
      rfl
    · rw [calls_record, hpersist]

/-- The calls that a run adds to a ledger. -/
theorem recounts_run (operations : List Operation) (engine : Engine (Ledger σ)) :
    ∃ calls, (engine.run operations).2.store.calls = engine.store.calls ++ calls ∧
      Recounts operations (engine.run operations).1 calls := by
  induction operations generalizing engine with
  | nil => exact ⟨[], (List.append_nil _).symm, .nil⟩
  | cons operation operations ih =>
    obtain ⟨calls, hcalls, hrest⟩ := ih (engine.perform operation).2
    change ∃ calls, ((engine.perform operation).2.run operations).2.store.calls = _ ∧
      Recounts _ ((engine.perform operation).1 :: ((engine.perform operation).2.run operations).1) _
    rw [hcalls]
    rcases recounts_perform operation engine with ⟨hnone, houtcome, hsame⟩ | ⟨call, hanswers, hone⟩
    · exact ⟨calls, by rw [hsame], .idle hnone houtcome hrest⟩
    · exact ⟨call :: calls, by rw [hone, List.append_assoc, List.singleton_append],
        .call hanswers hrest⟩

/-- A memory store ends with the accepted documents of a run behind those that it had. -/
theorem records_run (operations : List Operation) (engine : Engine MemoryStore) :
    (engine.run operations).2.store.records.toList =
      engine.store.records.toList ++ accepted operations := by
  induction operations generalizing engine with
  | nil => exact (List.append_nil _).symm
  | cons operation operations ih =>
    change ((engine.perform operation).2.run operations).2.store.records.toList = _
    rw [ih, perform_engine, accepted, accepted, List.filterMap_cons]
    cases operation.document? with
    | none => rfl
    | some document => simp [record, DocumentStore.persist]

/-- In every run over any store, whatever calls of it fail, the store receives the accepted
documents, each in one call and in the order of the run. The outcome of a request names its
document as indexed exactly if its own call succeeds, and has the fault of this call otherwise;
other operations make no call. A new memory store ends with just the accepted documents. -/
theorem calls_run (operations : List Operation) :
    (∀ {σ : Type} [DocumentStore σ] (engine : Engine σ),
      let calls := (engine.logged.run operations).2.store.calls
      calls.map StoreCall.document = accepted operations ∧
        Recounts operations (engine.run operations).1 calls ∧
        (engine.run operations).2 = (engine.logged.run operations).2.unlogged) ∧
    ∀ index, ((Engine.mk index (MemoryStore.mk #[])).run operations).2.store.records.toList =
      accepted operations := by
  refine ⟨fun {σ} _ engine => ?_, fun index => records_run operations _⟩
  obtain ⟨calls, hcalls, hrecounts⟩ := recounts_run operations engine.logged
  have hnew : (engine.logged.run operations).2.store.calls = calls := hcalls
  have hrun : engine.run operations =
      ((engine.logged.run operations).1, (engine.logged.run operations).2.unlogged) :=
    run_unlogged operations engine.logged
  rw [hnew, hrun]
  exact ⟨hrecounts.documents, hrecounts, rfl⟩

example :
    ((Engine.mk .empty (MemoryStore.mk #[])).run [.execute "index 2 cat dog cat",
      .execute "index 3 cat d-g", .query "cat", .index 1 ["fox"]]).2.store.records =
      #[⟨2, ["cat", "dog", "cat"]⟩, ⟨1, ["fox"]⟩] := by
  decide +kernel

end Engine

end TokenSearch
