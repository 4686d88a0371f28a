import TokenSearch.Store.Directory

/-!
# Store configurations

A configuration says where documents are kept: in a directory, or in memory only. Its text is a
JSON object whose member `kind` names the choice, or an array of the choice and its directory.
A configuration is read as a whole before its kind is looked at, so a fault anywhere in it
counts, also in members that the kind has no use for.
-/

namespace TokenSearch

/-- Where documents are kept. -/
inductive StoreConfig
  | filesystem (directory : String)
  | memory
  deriving DecidableEq, Repr

/-- A store that a configuration asks for, on the disk that it was opened on. The names of records
are numbered. -/
inductive ConfiguredStore
  | directory (store : DirectoryStore Serial)
  | memory (store : MemoryStore) (disk : Disk)

namespace ConfiguredStore

/-- The disk of a store. -/
def disk : ConfiguredStore → Disk
  | .directory store => store.disk
  | .memory _ disk => disk

/-- A store whose disk is exchanged. -/
def withDisk (disk : Disk) : ConfiguredStore → ConfiguredStore
  | .directory store => .directory { store with disk }
  | .memory store _ => .memory store disk

instance : DocumentStore ConfiguredStore where
  persist document
    | .directory store =>
      let (outcome, store) := DocumentStore.persist document store
      (outcome, .directory store)
    | .memory store disk =>
      let (outcome, store) := DocumentStore.persist document store
      (outcome, .memory store disk)

end ConfiguredStore

namespace StoreConfig

/-- The directory that receives records when none is named. -/
def defaultDirectory : String := "./documents"

/-- The configuration when none is given. -/
def default : StoreConfig := .filesystem defaultDirectory

/-- Keep documents in a directory, or in memory if they are not to be kept. -/
def ofArguments (directory : String) (persist : Bool) : StoreConfig :=
  if persist then .filesystem directory else .memory

/-- The text of a configuration. -/
def text : StoreConfig → String
  | .filesystem directory =>
    "\x7b\"kind\":\"filesystem\",\"dir\":" ++ Json.quote directory ++ "\x7d"
  | .memory => "\x7b\"kind\":\"memory\"\x7d"

/-- The number of containers that may be nested in the text of a configuration. -/
def nestingLimit : Nat := 127

/-- The configuration that a JSON value stands for. -/
def ofJson? (value : Json) : Option StoreConfig :=
  if value.isPlain nestingLimit then
    match value with
    | .object members => do
      let members ← Json.members? members
      match ← (← Json.member? "kind" members).string? with
      | "filesystem" => (← Json.member? "dir" members).string?.map .filesystem
      | "memory" => some .memory
      | _ => none
    | .array [kind, directory] =>
      if kind.string? = some "filesystem" then directory.string?.map .filesystem else none
    | .array [kind] => if kind.string? = some "memory" then some .memory else none
    | _ => none
  else none

/-- The configuration whose text is given. -/
def ofText? (s : String) : Option StoreConfig := (Json.ofText? s).bind ofJson?

/-- Open the store of a configuration on a disk. Directories that were made before a fault stay. -/
def openOn (config : StoreConfig) (disk : Disk) : Except StoreError ConfiguredStore × Disk :=
  match config with
  | .filesystem directory =>
    match DirectoryStore.openAt directory ({} : Serial) disk with
    | (.ok store, disk) => (.ok (.directory store), disk)
    | (.error error, disk) => (.error error, disk)
  | .memory => (.ok (.memory {} disk), disk)

end StoreConfig

end TokenSearch
