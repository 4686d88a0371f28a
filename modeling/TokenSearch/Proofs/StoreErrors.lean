import TokenSearch.Proofs.RecordPlaces
import TokenSearch.Proofs.Wording
import TokenSearch.Store.Directory

/-!
# The wording of store errors

The error of a store names a path. A directory store words its errors on one line when the name of
its directory is on one line: the names of records have no line feed, and neither has the reason
why a file cannot be written.
-/

namespace TokenSearch

namespace DocumentStore

variable {σ : Type} [DocumentStore σ]

/-- A store after documents were given to it one after another. -/
def persistAll (documents : List Document) (store : σ) : σ :=
  documents.foldl (fun store document => (persist document store).2) store

/-- The errors of a store, now and after any further documents, have no line feed. -/
def ReportsOnOneLine (store : σ) : Prop :=
  ∀ documents document error,
    (persist document (persistAll documents store)).1 = .error (.error error) →
      '\n' ∉ error.message.toList

/-- A store goes on as it is. -/
theorem ReportsOnOneLine.persist {store : σ} (h : ReportsOnOneLine store) (document : Document) :
    ReportsOnOneLine (persist document store).2 := fun documents =>
  h (document :: documents)

end DocumentStore

/-- A memory store has no errors. -/
theorem MemoryStore.reportsOnOneLine (store : MemoryStore) :
    DocumentStore.ReportsOnOneLine store := by
  intro documents document error h
  cases h

/-- Only a reason in other words can bring in a line feed. -/
theorem FileFault.feed_not_mem_message {fault : FileFault}
    (h : ∀ reason, fault = .other reason → '\n' ∉ reason.toList) :
    '\n' ∉ fault.message.toList := by
  cases fault with
  | other reason => exact h reason rfl
  | _ => decide

/-- The wording of a record that cannot be written. -/
theorem StoreError.feed_not_mem_write (id : DocId) {path : String} {cause : FileFault}
    (hpath : '\n' ∉ path.toList) (hcause : '\n' ∉ cause.message.toList) :
    '\n' ∉ (write id path cause).message.toList := by
  unfold message
  simp [DocId.feed_not_mem_text, hpath, hcause]

namespace Disk

theorem feed_not_mem_of_checkName {name : String} {fault : FileFault}
    (h : checkName name = .error fault) : '\n' ∉ fault.message.toList := by
  unfold checkName at h
  split at h <;> cases h
  exact FileFault.feed_not_mem_message nofun

theorem feed_not_mem_of_checkPath {path : String} {fault : FileFault}
    (h : checkPath path = .error fault) : '\n' ∉ fault.message.toList := by
  unfold checkPath at h
  split at h
  · cases h
    exact FileFault.feed_not_mem_message nofun
  · split at h
    · cases h
      exact FileFault.feed_not_mem_message nofun
    · split at h <;> cases h
      exact FileFault.feed_not_mem_message nofun

theorem feed_not_mem_of_walk {disk : Disk} {place names : List String} {fault : FileFault}
    (h : disk.walk place names = .error fault) : '\n' ∉ fault.message.toList := by
  induction names generalizing place with
  | nil => cases h
  | cons name names ih =>
    rw [walk] at h
    split at h
    · exact ih h
    · split at h
      · exact ih h
      · cases hname : checkName name with
        | error found =>
          rw [hname] at h
          cases h
          exact feed_not_mem_of_checkName hname
        | ok checked =>
          simp only [hname, bind, Except.bind] at h
          split at h
          · exact ih h
          · cases h
            exact FileFault.feed_not_mem_message nofun
          · cases h
            exact FileFault.feed_not_mem_message nofun

/-- The reason why a file cannot be written has no line feed. -/
theorem feed_not_mem_of_writeFile {disk : Disk} {path text : String} {fault : FileFault}
    (h : disk.writeFile path text = .error fault) : '\n' ∉ fault.message.toList := by
  simp only [writeFile, bind, Except.bind] at h
  split at h
  · rename_i hpath
    cases h
    exact feed_not_mem_of_checkPath hpath
  · split at h
    · cases h
      exact FileFault.feed_not_mem_message nofun
    · split at h
      · rename_i hwalk
        cases h
        exact feed_not_mem_of_walk hwalk
      · split at h
        · rename_i hname
          cases h
          exact feed_not_mem_of_checkName hname
        · split at h <;> cases h
          decide

/-- The path of a record has a line feed only if that of the directory has one. -/
theorem feed_not_mem_path {root : String} (h : '\n' ∉ root.toList) (name : RecordName) :
    '\n' ∉ (name.path root).toList := by
  have hname : '\n' ∉ name.file.toList := fun hfeed =>
    absurd (RecordName.mem_of_mem_file hfeed) (by decide)
  rw [RecordName.path, join]
  split <;> simp [h, hname]

end Disk

namespace DirectoryStore

variable {ν : Type} [NameSupply ν]

theorem root_persistAll (documents : List Document) (store : DirectoryStore ν) :
    (DocumentStore.persistAll documents store).root = store.root := by
  induction documents generalizing store with
  | nil => rfl
  | cons document documents ih =>
    rw [DocumentStore.persistAll, List.foldl_cons, ← DocumentStore.persistAll, ih, persist_eq]
    split <;> rfl

/-- A directory store words its errors on one line when its directory has no line feed. -/
theorem reportsOnOneLine {store : DirectoryStore ν} (h : '\n' ∉ store.root.toList) :
    DocumentStore.ReportsOnOneLine store := by
  intro documents document error herror
  rw [persist_eq] at herror
  split at herror
  · cases herror
  · rename_i fault hwrite
    cases herror
    rw [root_persistAll]
    exact StoreError.feed_not_mem_write document.id (Disk.feed_not_mem_path h _)
      (Disk.feed_not_mem_of_writeFile hwrite)

end DirectoryStore

end TokenSearch
