import TokenSearch.Proofs.Commands
import TokenSearch.Proofs.EngineRun

/-!
# Steps of an engine

Both ways into an engine come to the same few effects. An operation whose command is refused and
a query leave the engine as it is, and an accepted document is recorded by a single call of the
store, whose result decides the outcome. What holds of every step follows from these cases.
-/

namespace TokenSearch

/-- The fault that a fault of a command becomes. -/
def EngineFault.ofCommandFault : CommandFault → EngineFault
  | .unknown => .invalidCommand
  | .document fault => .document fault

/-- The reply that reports a fault. -/
def Reply.ofFault : EngineFault → Reply
  | .invalidCommand => .invalidCommand
  | .parse fault => .queryFailed fault.message
  | fault => .indexFailed fault.message

@[simp] theorem Reply.ofCommandFault_eq (fault : CommandFault) :
    ofCommandFault fault = ofFault (.ofCommandFault fault) := by
  cases fault <;> rfl

@[simp] theorem Reply.ofIndexing_error (id : DocId) (fault : StoreFault) :
    ofIndexing id (.error fault) = ofFault (.ofStoreFault fault) := by
  cases fault <;> rfl

namespace Outcome

/-- The id of the document that an outcome reports as indexed. -/
def indexed? : Outcome → Option DocId
  | .replied (.indexed id) => some id
  | .indexed (.ok id) => some id
  | _ => none

/-- The ids that an outcome gives as the answer to a query. -/
def found? : Outcome → Option IdSet
  | .replied (.results ids) => some ids
  | .found (.ok ids) => some ids
  | _ => none

theorem indexed?_of_found? {outcome : Outcome} {ids : IdSet} (h : outcome.found? = some ids) :
    outcome.indexed? = none := by
  match outcome, h with
  | .replied (.results _), _ => rfl
  | .found (.ok _), _ => rfl

/-- Whether an outcome reports a fault. -/
def isError : Outcome → Bool
  | .replied reply => reply.isError
  | .indexed result => !result.isOk
  | .found result => !result.isOk

theorem isError_of_indexed? {outcome : Outcome} {id : DocId} (h : outcome.indexed? = some id) :
    outcome.isError = false := by
  match outcome, h with
  | .replied (.indexed _), _ => rfl
  | .indexed (.ok _), _ => rfl

theorem isError_of_found? {outcome : Outcome} {ids : IdSet} (h : outcome.found? = some ids) :
    outcome.isError = false := by
  match outcome, h with
  | .replied (.results _), _ => rfl
  | .found (.ok _), _ => rfl

end Outcome

namespace Operation

/-- The command that an operation stands for, if it is accepted. -/
def command : Operation → Except EngineFault Command
  | .execute line => (Command.parse line).mapError .ofCommandFault
  | .index id tokens =>
    match checkTokens tokens with
    | .ok tokens => .ok (.index ⟨id, tokens⟩)
    | .error fault => .error (.document fault)
  | .query expression => .ok (.query expression)

/-- The outcome by which an operation reports a fault. -/
def failure (fault : EngineFault) : Operation → Outcome
  | .execute _ => .replied (.ofFault fault)
  | .index .. => .indexed (.error fault)
  | .query _ => .found (.error fault)

@[simp] theorem indexed?_failure (fault : EngineFault) (operation : Operation) :
    (operation.failure fault).indexed? = none := by
  cases operation <;> cases fault <;> rfl

@[simp] theorem isError_failure (fault : EngineFault) (operation : Operation) :
    (operation.failure fault).isError = true := by
  cases operation <;> cases fault <;> rfl

/-- An operation requests a document when it gives its id and one or more words that are all
tokens, either as they are or in a line of blank-separated words behind the keyword. -/
inductive Requests : Operation → Document → Prop
  | index {id tokens} (hne : tokens ≠ []) (htokens : ∀ token ∈ tokens, isToken token = true) :
    Requests (.index id tokens) ⟨id, tokens⟩
  | line {line arguments word id tokens}
    (hline : Command.dropLineEnd line.toList = "index ".toList ++ arguments)
    (hwords : (Text.words arguments).map String.ofList = word :: tokens)
    (hid : DocId.ofText? word = some id)
    (hne : tokens ≠ []) (htokens : ∀ token ∈ tokens, isToken token = true) :
    Requests (.execute line) ⟨id, tokens⟩

/-- A requested document has one or more tokens. -/
theorem Requests.tokens {operation : Operation} {document : Document}
    (h : operation.Requests document) :
    document.tokens ≠ [] ∧ ∀ token ∈ document.tokens, isToken token = true := by
  cases h with
  | index hne htokens => exact ⟨hne, htokens⟩
  | line _ _ _ hne htokens => exact ⟨hne, htokens⟩

theorem command_execute {line : String} {request : Command} :
    (Operation.execute line).command = .ok request ↔ Command.parse line = .ok request := by
  cases h : Command.parse line <;> simp [command, h, Except.mapError]

theorem command_index {id : DocId} {tokens : List String} {request : Command} :
    (Operation.index id tokens).command = .ok request ↔
      checkTokens tokens = .ok tokens ∧ .index ⟨id, tokens⟩ = request := by
  cases h : checkTokens tokens with
  | error fault => simp [command, h]
  | ok checked =>
    obtain ⟨rfl, -⟩ := checkTokens_eq_ok_iff.1 h
    simp [command, h]

theorem command_execute_error {line : String} {fault : EngineFault} :
    (Operation.execute line).command = .error fault ↔
      ∃ cause, Command.parse line = .error cause ∧ .ofCommandFault cause = fault := by
  cases h : Command.parse line <;> simp [command, h, Except.mapError]

theorem command_index_error {id : DocId} {tokens : List String} {fault : EngineFault} :
    (Operation.index id tokens).command = .error fault ↔
      ∃ cause, checkTokens tokens = .error cause ∧ .document cause = fault := by
  cases h : checkTokens tokens <;> simp [command, h]

/-- An operation is refused for a line that is no command or for a bad document. -/
theorem kind_of_refused {operation : Operation} {fault : EngineFault}
    (h : operation.command = .error fault) :
    fault.kind ∈ ["invalid_command", "validation", "parse"] := by
  cases operation with
  | execute line =>
    obtain ⟨cause, -, rfl⟩ := command_execute_error.1 h
    cases cause <;> simp [EngineFault.ofCommandFault, EngineFault.kind]
  | index id tokens =>
    obtain ⟨cause, -, rfl⟩ := command_index_error.1 h
    simp [EngineFault.kind]
  | query expression => cases h

/-- An operation asks to index a document when its command does. -/
theorem document?_eq_some_iff {operation : Operation} {document : Document} :
    operation.document? = some document ↔ operation.command = .ok (.index document) := by
  cases operation with
  | execute line =>
    rw [command_execute, document?]
    cases Command.parse line with
    | error fault => simp
    | ok request => cases request <;> simp
  | index id tokens =>
    simp only [document?, command]
    cases checkTokens tokens <;> simp
  | query expression => simp [document?, command]

/-- An operation requests a document when its command is to index it. -/
theorem requests_iff_command {operation : Operation} {document : Document} :
    operation.Requests document ↔ operation.command = .ok (.index document) := by
  constructor
  · rintro (⟨hne, htokens⟩ | @⟨line, arguments, word, id, tokens, hline, hwords, hid, hne, htokens⟩)
    · rw [command, checkTokens_eq_ok_iff.2 ⟨rfl, hne, htokens⟩]
    · have hdocument : Command.documentOf ((Text.words arguments).map String.ofList) =
          .ok ⟨id, tokens⟩ := Command.documentOf_eq_ok_iff.2 ⟨word, hwords, hid, hne, htokens⟩
      rw [command, Command.parse_eq_index_iff.2 ⟨arguments, hline, hdocument⟩]
      rfl
  · intro h
    cases operation with
    | execute line =>
      obtain ⟨arguments, hline, hdocument⟩ := Command.parse_eq_index_iff.1 (command_execute.1 h)
      obtain ⟨word, hwords, hid, hne, htokens⟩ := Command.documentOf_eq_ok_iff.1 hdocument
      exact .line hline hwords hid hne htokens
    | index id tokens =>
      obtain ⟨hchecked, hdocument⟩ := command_index.1 h
      cases hdocument
      obtain ⟨-, hne, htokens⟩ := checkTokens_eq_ok_iff.1 hchecked
      exact .index hne htokens
    | query expression => cases h

/-- The document that an operation asks to index is the one that it requests. -/
theorem requests_iff {operation : Operation} {document : Document} :
    operation.Requests document ↔ operation.document? = some document :=
  requests_iff_command.trans document?_eq_some_iff.symm

end Operation

namespace Engine

variable {σ : Type} [DocumentStore σ]

/-- The fault that an operation on an engine ends with: that of its command, that of the
expression of a query, or that of the store when it is given an accepted document. -/
def fault? (operation : Operation) (engine : Engine σ) : Option EngineFault :=
  match operation.command with
  | .error fault => some fault
  | .ok (.query expression) =>
    match Expr.parse expression with
    | .error fault => some (.parse fault)
    | .ok _ => none
  | .ok (.index document) =>
    match (DocumentStore.persist document engine.store).1 with
    | .error fault => some (.ofStoreFault fault)
    | .ok () => none

/-- What becomes of an engine by an operation. -/
inductive Effect (engine : Engine σ) (operation : Operation) : Outcome × Engine σ → Prop
  | refused (fault : EngineFault) (hcommand : operation.command = .error fault) :
    Effect engine operation (operation.failure fault, engine)
  | unreadable (expression : String) (fault : ParseFault)
    (hcommand : operation.command = .ok (.query expression))
    (hparse : Expr.parse expression = .error fault) :
    Effect engine operation (operation.failure (.parse fault), engine)
  | answered (expression : String) (e : Expr) (outcome : Outcome)
    (hcommand : operation.command = .ok (.query expression))
    (hparse : Expr.parse expression = .ok e)
    (houtcome : outcome.found? = some (engine.index.evaluate (.ofExpr e))) :
    Effect engine operation (outcome, engine)
  | kept (document : Document) (outcome : Outcome)
    (hcommand : operation.command = .ok (.index document))
    (hpersist : (DocumentStore.persist document engine.store).1 = .ok ())
    (houtcome : outcome.indexed? = some document.id) :
    Effect engine operation (outcome, (engine.record document).2)
  | failed (document : Document) (fault : StoreFault)
    (hcommand : operation.command = .ok (.index document))
    (hpersist : (DocumentStore.persist document engine.store).1 = .error fault) :
    Effect engine operation (operation.failure (.ofStoreFault fault), (engine.record document).2)

/-- A refused command is reported and changes nothing. -/
theorem perform_of_refused {operation : Operation} {fault : EngineFault}
    (h : operation.command = .error fault) (engine : Engine σ) :
    engine.perform operation = (operation.failure fault, engine) := by
  cases operation with
  | execute line =>
    obtain ⟨cause, hparse, rfl⟩ := Operation.command_execute_error.1 h
    simp [perform, execute, hparse, Operation.failure]
  | index id tokens =>
    obtain ⟨cause, htokens, rfl⟩ := Operation.command_index_error.1 h
    simp [perform, indexDocument, htokens, Operation.failure]
  | query expression => cases h

/-- A query changes nothing, and what can be read of its expression decides the outcome. -/
theorem perform_of_query {operation : Operation} {expression : String}
    (h : operation.command = .ok (.query expression)) (engine : Engine σ) :
    ∃ outcome, engine.perform operation = (outcome, engine) ∧
      match Expr.parse expression with
      | .error fault => outcome = operation.failure (.parse fault)
      | .ok e => outcome.found? = some (engine.index.evaluate (.ofExpr e)) := by
  cases operation with
  | execute line =>
    refine ⟨.replied (.ofSearch (engine.index.search expression)), ?_, ?_⟩
    · simp [perform, execute, Operation.command_execute.1 h]
    · cases hparse : Expr.parse expression <;> rw [Index.search, hparse] <;> rfl
  | index id tokens => cases (Operation.command_index.1 h).2
  | query text =>
    cases h
    refine ⟨.found (engine.query expression), rfl, ?_⟩
    cases hparse : Expr.parse expression <;> rw [query, Index.search, hparse] <;> rfl

/-- An accepted document is recorded, and the result of the store decides the outcome. -/
theorem perform_of_index {operation : Operation} {document : Document}
    (h : operation.command = .ok (.index document)) (engine : Engine σ) :
    ∃ outcome, engine.perform operation = (outcome, (engine.record document).2) ∧
      match (DocumentStore.persist document engine.store).1 with
      | .error fault => outcome = operation.failure (.ofStoreFault fault)
      | .ok () => outcome.indexed? = some document.id := by
  cases operation with
  | execute line =>
    refine ⟨.replied (.ofIndexing document.id (engine.record document).1), ?_, ?_⟩
    · simp [perform, execute, Operation.command_execute.1 h]
    · rcases hpersist : DocumentStore.persist document engine.store with ⟨fault | done, store⟩
      · simp [record, hpersist, Operation.failure]
      · simp [record, hpersist, Reply.ofIndexing, Outcome.indexed?]
  | index id tokens =>
    obtain ⟨hchecked, hdocument⟩ := Operation.command_index.1 h
    cases hdocument
    rcases hpersist : DocumentStore.persist ⟨id, tokens⟩ engine.store with ⟨fault | done, store⟩
    · simp [perform, indexDocument, hchecked, record, hpersist, Operation.failure]
    · simp [perform, indexDocument, hchecked, record, hpersist, Outcome.indexed?]
  | query expression => cases h

/-- Every operation on every engine has one of the effects. -/
theorem effect_perform (operation : Operation) (engine : Engine σ) :
    Effect engine operation (engine.perform operation) := by
  cases hcommand : operation.command with
  | error fault =>
    rw [perform_of_refused hcommand]
    exact .refused fault hcommand
  | ok request =>
    cases request with
    | query expression =>
      obtain ⟨outcome, hperform, houtcome⟩ := perform_of_query hcommand engine
      rw [hperform]
      cases hparse : Expr.parse expression with
      | error fault =>
        rw [hparse] at houtcome
        rw [houtcome]
        exact .unreadable expression fault hcommand hparse
      | ok e =>
        rw [hparse] at houtcome
        exact .answered expression e outcome hcommand hparse houtcome
    | index document =>
      obtain ⟨outcome, hperform, houtcome⟩ := perform_of_index hcommand engine
      rw [hperform]
      cases hpersist : (DocumentStore.persist document engine.store).1 with
      | error fault =>
        rw [hpersist] at houtcome
        rw [houtcome]
        exact .failed document fault hcommand hpersist
      | ok done =>
        rw [hpersist] at houtcome
        exact .kept document outcome hcommand hpersist houtcome

end Engine

end TokenSearch
