import TokenSearch.Store.Names

/-!
# Directory stores

A directory store writes each record to a file of its own in one directory of a disk, under a
name that it draws from its supply. The directory is made when the store is opened; what happens to
it afterwards shows when the next record is written. How directories are made and files written is
left open, so that the same steps are taken on a disk and on a file system.
-/

namespace TokenSearch

/-- A disk, the directory on it that receives the records, and a supply of names for them. -/
structure DirectoryStore (ν : Type) where
  root : String
  disk : Disk
  names : ν

namespace DirectoryStore

/-- Make the directory of a new store. -/
def prepare {m : Type → Type} [Monad m] (make : String → m (Except FileFault Unit))
    (root : String) : m (Except StoreError Unit) := do
  let made ← make root
  return made.mapError (.createDirectory root)

/-- Write the record of a document to the file of a name. -/
def deposit {m : Type → Type} [Monad m] (write : String → String → m (Except FileFault Unit))
    (root : String) (name : RecordName) (document : Document) : m (Except StoreFault Unit) := do
  let written ← write (name.path root) document.record
  return written.mapError fun fault => .error (.write document.id (name.path root) fault)

variable {ν : Type}

/-- Open a store. Directories that were made before a fault stay. -/
def openAt (root : String) (names : ν) (disk : Disk) :
    Except StoreError (DirectoryStore ν) × Disk :=
  let (prepared, disk) := prepare (m := StateM Disk) (fun path disk => disk.makeDirectories path)
    root disk
  (prepared.map fun _ => ⟨root, disk, names⟩, disk)

variable [NameSupply ν]

/-- The name of the next record. -/
def nextName (store : DirectoryStore ν) : RecordName :=
  (NameSupply.draw store.disk store.root store.names).1

/-- A store that has drawn a name. -/
def drawn (store : DirectoryStore ν) : DirectoryStore ν :=
  { store with names := (NameSupply.draw store.disk store.root store.names).2 }

/-- Write the record of a document to a file of its own. -/
def persist (document : Document) (store : DirectoryStore ν) :
    Except StoreFault Unit × DirectoryStore ν :=
  let (outcome, disk) := deposit (m := StateM Disk) Disk.attemptWrite store.root store.nextName
    document store.disk
  (outcome, { store.drawn with disk })

instance : DocumentStore (DirectoryStore ν) where
  persist := persist

/-- On a disk, the record is written or the fault of the attempt is reported. -/
theorem deposit_attemptWrite (root : String) (name : RecordName) (document : Document)
    (disk : Disk) :
    deposit (m := StateM Disk) Disk.attemptWrite root name document disk =
      match disk.writeFile (name.path root) document.record with
      | .ok disk => (.ok (), disk)
      | .error fault => (.error (.error (.write document.id (name.path root) fault)), disk) := by
  change ((Disk.attemptWrite (name.path root) document.record disk).1.mapError _,
    (Disk.attemptWrite (name.path root) document.record disk).2) = _
  rw [Disk.attemptWrite]
  cases disk.writeFile (name.path root) document.record <;> rfl

/-- The record is written or not, and in both cases a name has been drawn. -/
theorem persist_eq (document : Document) (store : DirectoryStore ν) :
    DocumentStore.persist document store =
      match store.disk.writeFile (store.nextName.path store.root) document.record with
      | .ok disk => (.ok (), ⟨store.root, disk, store.drawn.names⟩)
      | .error fault =>
        (.error (.error (.write document.id (store.nextName.path store.root) fault)),
          store.drawn) := by
  simp only [DocumentStore.persist, persist, deposit_attemptWrite]
  cases store.disk.writeFile (store.nextName.path store.root) document.record <;> rfl

/-- When a document is not kept, only a name has been drawn. -/
theorem drawn_of_persist {document : Document} {store : DirectoryStore ν} {fault : StoreFault}
    (h : (DocumentStore.persist document store).1 = .error fault) :
    (DocumentStore.persist document store).2 = store.drawn := by
  simp only [persist_eq] at h ⊢
  split at h
  · cases h
  · rfl

end DirectoryStore

end TokenSearch
