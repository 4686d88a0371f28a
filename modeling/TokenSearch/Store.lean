import TokenSearch.Document

/-!
# Document stores

A store is given each document that is indexed and keeps its record. It may refuse a document
or break down; the document stays indexed all the same. Records are never read back.
-/

namespace TokenSearch

/-- The reason why a file operation fails. -/
inductive FileFault
  | alreadyExists
  | notDirectory
  | notFound
  | nameTooLong
  | nulByte
  /-- Another reason, in words. -/
  | other (reason : String)
  deriving DecidableEq, Repr

/-- The wording of a fault. -/
def FileFault.message : FileFault → String
  | .alreadyExists => "File exists (os error 17)"
  | .notDirectory => "Not a directory (os error 20)"
  | .notFound => "No such file or directory (os error 2)"
  | .nameTooLong => "File name too long (os error 36)"
  | .nulByte => "file name contained an unexpected NUL byte"
  | .other reason => reason

/-- The reason why a store cannot keep a record. -/
inductive StoreError
  | createDirectory (path : String) (cause : FileFault)
  | write (id : DocId) (path : String) (cause : FileFault)
  | encode (id : DocId) (cause : String)
  deriving DecidableEq, Repr

namespace StoreError

/-- The wording of what lies behind an error. -/
def cause : StoreError → String
  | .createDirectory _ cause => cause.message
  | .write _ _ cause => cause.message
  | .encode _ cause => cause

/-- The wording of an error. -/
def message : StoreError → String
  | .createDirectory path cause =>
    "cannot prepare document directory " ++ path ++ ": " ++ cause.message
  | .write id path cause =>
    "cannot write document " ++ id.text ++ " to " ++ path ++ ": " ++ cause.message
  | .encode id cause => "cannot encode document " ++ id.text ++ ": " ++ cause

end StoreError

/-- How a store fails to keep a record: with an error, or by breaking down in the middle. -/
inductive StoreFault
  | error (error : StoreError)
  | crash
  deriving DecidableEq, Repr

/-- Keeps the records of documents. -/
class DocumentStore (σ : Type) where
  /-- Keep the record of a document. -/
  persist : Document → σ → Except StoreFault Unit × σ

/-- A store that keeps documents in memory, in the order in which they are given. -/
structure MemoryStore where
  records : Array Document := #[]
  deriving DecidableEq, Repr

instance : DocumentStore MemoryStore where
  persist document store := (.ok (), ⟨store.records.push document⟩)

end TokenSearch
