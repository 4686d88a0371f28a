import TokenSearch.Proofs.EngineStep
import TokenSearch.Store.Config

/-!
# What a failed operation leaves behind

A document is checked before anything changes, so an operation that is refused changes nothing,
and neither does a query. Only a fault of the store comes too late: the index then already holds
the document, just as if the store had kept it, while the store has failed at its one call.
-/

namespace TokenSearch

namespace ConfiguredStore

/-- What a store has kept: the documents in memory, and all that stands on its disk. -/
def kept : ConfiguredStore → Array Document × Std.ExtTreeMap (List String) Entry
  | .directory store => (#[], store.disk.entries)
  | .memory store disk => (store.records, disk.entries)

/-- A store keeps nothing by a call that fails. -/
theorem kept_persist {document : Document} {store : ConfiguredStore} {fault : StoreFault}
    (h : (DocumentStore.persist document store).1 = .error fault) :
    (DocumentStore.persist document store).2.kept = store.kept := by
  cases store with
  | directory store =>
    change (DocumentStore.persist document store).1 = .error fault at h
    change (directory (DocumentStore.persist document store).2).kept = (directory store).kept
    rw [DirectoryStore.drawn_of_persist h]
    rfl
  | memory store disk => cases h

end ConfiguredStore

/-- A fault shows before anything changes, or it is one of the store. -/
theorem EngineFault.kind_cases (fault : EngineFault) :
    fault.kind ∈ ["invalid_command", "validation", "parse"] ∨
      fault.kind ∈ ["persistence", "internal"] := by
  cases fault <;> simp [kind]

namespace Engine

variable {σ : Type} [DocumentStore σ]

/-- What an operation may change, by the fault that it ends with. -/
structure Confined (engine : Engine σ) (operation : Operation) (outcome : Outcome)
    (after : Engine σ) : Prop where
  /-- The outcome reports a fault just when there is one. -/
  isError : outcome.isError = (engine.fault? operation).isSome
  /-- The fault reported is the one that there is. -/
  reported (fault : EngineFault) (hfault : engine.fault? operation = some fault) :
    outcome = operation.failure fault
  /-- A refused operation changes nothing. -/
  refused (fault : EngineFault) (hfault : engine.fault? operation = some fault)
    (hkind : fault.kind ∈ ["invalid_command", "validation", "parse"]) : after = engine
  /-- A query changes nothing, whether or not it is answered. -/
  queried (expression : String) (hcommand : operation.command = .ok (.query expression)) :
    after = engine
  /-- When the store fails, at its one call, the index is the one that the operation makes over
  any other store: it has got the pairs of the document and no others. -/
  failed (fault : EngineFault) (hfault : engine.fault? operation = some fault)
    (hkind : fault.kind ∈ ["persistence", "internal"]) :
    ∃ document cause, operation.Requests document ∧ fault = .ofStoreFault cause ∧
      DocumentStore.persist document engine.store = (.error cause, after.store) ∧
      (∀ {τ : Type} [DocumentStore τ] (other : τ),
        after.index = ((Engine.mk engine.index other).perform operation).2.index) ∧
      ∀ token d, after.index.contains token d = true ↔
        (token ∈ document.tokens ∧ d = document.id) ∨ engine.index.contains token d = true

/-- A fault that shows before anything changes confines the operation. -/
theorem Confined.of_refusal {engine : Engine σ} {operation : Operation} {fault : EngineFault}
    (hfault : engine.fault? operation = some fault)
    (hkind : fault.kind ∈ ["invalid_command", "validation", "parse"]) :
    Confined engine operation (operation.failure fault) engine where
  isError := by simp [hfault]
  reported other hother := by
    obtain rfl : fault = other := Option.some.inj (hfault.symm.trans hother)
    rfl
  refused _ _ _ := rfl
  queried _ _ := rfl
  failed other hother hstore := by
    obtain rfl : fault = other := Option.some.inj (hfault.symm.trans hother)
    cases fault <;> simp [EngineFault.kind] at hkind hstore

/-- An operation that ends without a fault is confined. -/
theorem Confined.of_success {engine after : Engine σ} {operation : Operation} {outcome : Outcome}
    (hfault : engine.fault? operation = none) (houtcome : outcome.isError = false)
    (hquery : ∀ expression, operation.command = .ok (.query expression) → after = engine) :
    Confined engine operation outcome after where
  isError := by rw [houtcome, hfault]; rfl
  reported _ h := by rw [hfault] at h; cases h
  refused _ h := by rw [hfault] at h; cases h
  queried := hquery
  failed _ h := by rw [hfault] at h; cases h

/-- An operation whose store fails is confined. -/
theorem Confined.of_failure {engine : Engine σ} {operation : Operation} {document : Document}
    {cause : StoreFault} (hcommand : operation.command = .ok (.index document))
    (hpersist : (DocumentStore.persist document engine.store).1 = .error cause) :
    Confined engine operation (operation.failure (.ofStoreFault cause))
      (engine.record document).2 := by
  have hfault : engine.fault? operation = some (.ofStoreFault cause) := by
    simp [fault?, hcommand, hpersist]
  have hindex {τ : Type} [DocumentStore τ] (other : τ) :
      ((Engine.mk engine.index other).perform operation).2.index =
        engine.index.addDocument document.id document.tokens := by
    rw [perform_engine, Operation.document?_eq_some_iff.2 hcommand]
    rfl
  have hsame {fault : EngineFault} (h : engine.fault? operation = some fault) :
      fault = .ofStoreFault cause := Option.some.inj (h.symm.trans hfault)
  refine ⟨by simp [hfault], ?_, ?_, ?_, ?_⟩
  · intro fault h
    rw [hsame h]
  · intro fault h hkind
    rw [hsame h] at hkind
    cases cause <;> simp [EngineFault.ofStoreFault, EngineFault.kind] at hkind
  · intro expression h
    rw [hcommand] at h
    cases h
  · intro fault h _
    obtain rfl := hsame h
    refine ⟨document, cause, Operation.requests_iff_command.2 hcommand, rfl, ?_,
      fun other => (hindex other).symm, ?_⟩
    · rw [← hpersist]
      rfl
    · intro token d
      rw [Index.contains_iff, Index.contains_iff]
      exact Index.mem_postings_addDocument

/-- Every operation is confined. -/
theorem confined_perform (operation : Operation) (engine : Engine σ) :
    Confined engine operation (engine.perform operation).1 (engine.perform operation).2 := by
  have heffect := effect_perform operation engine
  generalize engine.perform operation = after at heffect ⊢
  cases heffect with
  | refused fault hcommand =>
    exact .of_refusal (by simp [fault?, hcommand]) (Operation.kind_of_refused hcommand)
  | unreadable expression fault hcommand hparse =>
    exact .of_refusal (by simp [fault?, hcommand, hparse]) (by simp [EngineFault.kind])
  | answered expression e outcome hcommand hparse houtcome =>
    exact .of_success (by simp [fault?, hcommand, hparse]) (Outcome.isError_of_found? houtcome)
      fun _ _ => rfl
  | kept document outcome hcommand hpersist houtcome =>
    exact .of_success (by simp [fault?, hcommand, hpersist])
      (Outcome.isError_of_indexed? houtcome) (by simp [hcommand])
  | failed document cause hcommand hpersist => exact .of_failure hcommand hpersist

/-- No operation with a fault adds a record to a store of the program. -/
theorem kept_perform {operation : Operation} {engine : Engine ConfiguredStore} {fault : EngineFault}
    (h : engine.fault? operation = some fault) :
    (engine.perform operation).2.store.kept = engine.store.kept := by
  have hconfined := confined_perform operation engine
  rcases fault.kind_cases with hkind | hkind
  · rw [hconfined.refused fault h hkind]
  · obtain ⟨document, cause, -, -, hpersist, -⟩ := hconfined.failed fault h hkind
    have herror : (DocumentStore.persist document engine.store).1 = .error cause := by rw [hpersist]
    have hkept := ConfiguredStore.kept_persist herror
    rwa [hpersist] at hkept

/-- Over any store, an invalid command, a bad document and an expression that cannot be read
leave an engine as it was, and so does every query. When the store fails, the index becomes the
one that any other store would have led to. The stores of the program keep no record then. -/
theorem perform_atomic (operation : Operation) :
    (∀ {σ : Type} [DocumentStore σ] (engine : Engine σ),
      Confined engine operation (engine.perform operation).1 (engine.perform operation).2) ∧
    ∀ (engine : Engine ConfiguredStore) (fault : EngineFault),
      engine.fault? operation = some fault →
        (engine.perform operation).2.store.kept = engine.store.kept :=
  ⟨confined_perform operation, fun _ _ => kept_perform⟩

/-- A document whose record has no directory to go to. -/
theorem perform_atomic_missing_directory :
    let engine := Engine.mk .empty (ConfiguredStore.directory ⟨"docs", {}, {}⟩)
    let operation := Operation.execute "index 1 cat dog cat"
    let path := "docs/6d1f9b3e-57c2-4e8a-b0f4-000000000000.json"
    engine.fault? operation = some (.store (.write 1 path .notFound)) ∧
      (engine.perform operation).2.store.kept = engine.store.kept := by
  intro engine operation path
  have hfault : engine.fault? operation = some (.store (.write 1 path .notFound)) := by
    decide +kernel
  exact ⟨hfault, (perform_atomic operation).2 engine _ hfault⟩

end Engine

end TokenSearch
