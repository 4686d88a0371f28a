import TokenSearch.Proofs.EngineStep

/-!
# Runs of command lines

A session carries out command lines one after another. Whatever becomes of the documents that a
store is given, a line finds the index that the lines before it have made: two engines over any
two stores stay in step, and only the reply to an accepted document tells the stores apart.
-/

namespace TokenSearch

/-- A reply tells what a store made of the document with an id. -/
structure Reply.Tells (reply : Reply) (id : DocId) (result : Except StoreFault Unit) : Prop where
  kept (h : result = .ok ()) : reply = .indexed id
  refused (error : StoreError) (h : result = .error (.error error)) :
    reply = .indexFailed error.message

theorem Reply.tells_ofIndexing (id : DocId) (result : Except StoreFault Unit) :
    (ofIndexing id result).Tells id result where
  kept h := by rw [h]; rfl
  refused error h := by rw [h]; rfl

namespace Engine

variable {σ τ : Type} [DocumentStore σ] [DocumentStore τ]

/-- Carry out command lines one after another: the replies, and the engine that is reached. -/
def executeAll (engine : Engine σ) : List String → List Reply × Engine σ
  | [] => ([], engine)
  | line :: lines =>
    let rest := executeAll (engine.execute line).2 lines
    ((engine.execute line).1 :: rest.1, rest.2)

/-- Carrying out lines is a run of the operations that they stand for. -/
theorem run_map_execute (lines : List String) (engine : Engine σ) :
    engine.run (lines.map .execute) =
      ((engine.executeAll lines).1.map .replied, (engine.executeAll lines).2) := by
  induction lines generalizing engine with
  | nil => rfl
  | cons line lines ih => simp only [List.map_cons, run, perform, ih, executeAll]

/-- The index after some lines holds what their accepted documents add to it. -/
theorem index_executeAll (lines : List String) (engine : Engine σ) :
    (engine.executeAll lines).2.index =
      engine.index.addDocuments (accepted (lines.map .execute)) := by
  rw [← index_run, run_map_execute]

/-- The reply to a line that requests a document tells the result of a call of the store, and the
store is left as this call leaves it. -/
def Reports (engine : Engine σ) (line : String) (document : Document) : Prop :=
  ∃ result, DocumentStore.persist document engine.store = (result, (engine.execute line).2.store) ∧
    (engine.execute line).1.Tells document.id result

theorem reports_of_requests {line : String} {document : Document}
    (h : (Operation.execute line).Requests document) (engine : Engine σ) :
    engine.Reports line document := by
  have hparse : Command.parse line = .ok (.index document) :=
    Operation.command_execute.1 (Operation.requests_iff_command.1 h)
  refine ⟨(DocumentStore.persist document engine.store).1, ?_, ?_⟩
  · simp only [execute, hparse, record]
  · simp only [execute, hparse, record]
    exact Reply.tells_ofIndexing document.id _

/-- What two engines make of a line, whatever their stores do. -/
structure Agree (line : String) (left : Engine σ) (right : Engine τ) : Prop where
  /-- The line finds the same index in both. -/
  before : left.index = right.index
  /-- The line leaves the same index in both. -/
  after : (left.execute line).2.index = (right.execute line).2.index
  /-- Both answer every query alike. -/
  query (expression : String) : left.query expression = right.query expression
  /-- A line that requests no document gets the same reply from both. -/
  reply (h : ∀ document, ¬(Operation.execute line).Requests document) :
    (left.execute line).1 = (right.execute line).1
  /-- A line that requests a document is answered by each as its own store has it. -/
  document (document : Document) (h : (Operation.execute line).Requests document) :
    left.Reports line document ∧ right.Reports line document

/-- Engines with the same index agree on every line. -/
theorem agree_of_index_eq {left : Engine σ} {right : Engine τ} (h : left.index = right.index)
    (line : String) : Agree line left right where
  before := h
  after := by
    have hleft := index_executeAll [line] left
    have hright := index_executeAll [line] right
    rw [h, ← hright] at hleft
    exact hleft
  query expression := by rw [query, query, h]
  reply hrequests := by
    simp only [execute]
    cases hparse : Command.parse line with
    | error fault => rfl
    | ok command =>
      cases command with
      | query expression => simp only [h]
      | index document =>
        have hcommand := Operation.command_execute.2 hparse
        exact absurd (Operation.requests_iff_command.2 hcommand) (hrequests document)
  document document hrequests :=
    ⟨reports_of_requests hrequests left, reports_of_requests hrequests right⟩

/-- Over any two stores, whichever of their calls fail, two engines with the same index at the
start agree on every line of every sequence of lines. -/
theorem agree_executeAll (index : Index) (left : σ) (right : τ) (lines : List String)
    (line : String) :
    Agree line ((Engine.mk index left).executeAll lines).2
      ((Engine.mk index right).executeAll lines).2 := by
  apply agree_of_index_eq
  rw [index_executeAll, index_executeAll]

end Engine

end TokenSearch
