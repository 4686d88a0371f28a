import TokenSearch.Proofs.EngineStep
import TokenSearch.Proofs.RecordPlaces
import TokenSearch.Proofs.Records
import TokenSearch.Store.Directory

/-!
# What a directory store deposits

Each document that an engine reports as indexed has got a file of its own in the directory of the
store, from which it is read back, and nothing else on the disk has changed. Any other operation
leaves the disk alone. What happens to the directory between two operations makes no difference to
this. When nothing happens, the files that a run adds to the directory are those of the documents
that it reports.
-/

namespace TokenSearch

namespace Disk

/-- What is put at a place stands there, and elsewhere stands what stood there before. -/
theorem entryAt?_put (disk : Disk) {place : List String} (h : isAround place = false)
    (entry : Entry) (p : List String) :
    (disk.put place entry).entryAt? p = if p = place then some entry else disk.entryAt? p := by
  by_cases hp : p = place
  · simp [entryAt?, put, hp, h]
  · have hne : compare place p ≠ .eq := fun heq => hp (Std.LawfulEqOrd.eq_of_compare heq).symm
    simp [entryAt?, put, Std.ExtTreeMap.getElem?_insert, hp, hne]

/-- Names lead through the directories of a disk as before when all of them are still there. -/
theorem walk_of_directories {disk after : Disk} {names start place : List String}
    (h : ∀ p, disk.entryAt? p = some .directory → after.entryAt? p = some .directory)
    (hwalk : disk.walk start names = .ok place) : after.walk start names = .ok place := by
  induction names generalizing start with
  | nil => exact hwalk
  | cons name names ih =>
    by_cases hdot : name = "."
    · rw [walk, if_pos hdot] at hwalk ⊢
      exact ih hwalk
    by_cases hdots : name = ".."
    · rw [walk, if_neg hdot, if_pos hdots] at hwalk ⊢
      exact ih hwalk
    rw [walk, if_neg hdot, if_neg hdots] at hwalk ⊢
    cases hname : checkName name with
    | error fault =>
      rw [hname] at hwalk
      cases hwalk
    | ok checked =>
      simp only [hname, bind, Except.bind] at hwalk ⊢
      cases hentry : disk.entryAt? (start ++ [name]) with
      | none =>
        rw [hentry] at hwalk
        cases hwalk
      | some entry =>
        rw [hentry] at hwalk
        cases entry with
        | directory =>
          rw [h _ hentry]
          exact ih hwalk
        | file text => cases hwalk

/-- The text of a file at a place, if it is in a certain directory. -/
def textIn? (disk : Disk) (directory place : List String) : Option String :=
  match disk.entryAt? place with
  | some (.file text) => if outwards place = directory then some text else none
  | _ => none

/-- The texts of the files in a directory. -/
def textsIn (disk : Disk) (directory : List String) : List String :=
  disk.entries.keys.filterMap (disk.textIn? directory)

/-- A file that is put at a free place is one more in its directory. -/
theorem textsIn_put (disk : Disk) {directory place : List String} (hplace : isAround place = false)
    (hfree : disk.entryAt? place = none) (hdirectory : outwards place = directory)
    (text : String) :
    ((disk.put place (.file text)).textsIn directory).Perm (text :: disk.textsIn directory) := by
  have hnew : place ∉ disk.entries := by
    rw [entryAt?, hplace, if_neg Bool.false_ne_true] at hfree
    rw [← Std.ExtTreeMap.isSome_getElem?_iff_mem, hfree]
    exact Bool.false_ne_true
  have hkeys : (disk.put place (.file text)).entries.keys.Perm (place :: disk.entries.keys) := by
    refine (List.perm_ext_iff_of_nodup Std.ExtTreeMap.nodup_keys ?_).2 ?_
    · have hfirst : place ∉ disk.entries.keys := fun h => hnew (Std.ExtTreeMap.mem_keys.1 h)
      exact List.nodup_cons.2 ⟨hfirst, Std.ExtTreeMap.nodup_keys⟩
    · intro p
      rw [Std.ExtTreeMap.mem_keys, put, Std.ExtTreeMap.mem_insert, Std.compare_eq_iff_eq,
        List.mem_cons, Std.ExtTreeMap.mem_keys, @eq_comm _ place]
  have hhead : (disk.put place (.file text)).textIn? directory place = some text := by
    simp [textIn?, entryAt?_put disk hplace, hdirectory]
  have hrest : ∀ p ∈ disk.entries.keys,
      (disk.put place (.file text)).textIn? directory p = disk.textIn? directory p := by
    intro p hp
    have hne : p ≠ place := by
      rintro rfl
      exact hnew (Std.ExtTreeMap.mem_keys.1 hp)
    simp [textIn?, entryAt?_put disk hplace, hne]
  refine (hkeys.filterMap _).trans ?_
  rw [List.filterMap_cons_some hhead, List.filterMap_congr hrest, textsIn]

/-- A record is written by putting a file at its place in the directory. -/
theorem put_of_writeFile {disk after : Disk} {root text : String} {name : RecordName}
    (h : disk.writeFile (name.path root) text = .ok after) :
    ∃ directory, disk.walk [] (names root) = .ok directory ∧
      after = disk.put (recordPlace directory name) (.file text) := by
  simp only [writeFile, names_path, List.getLast?_concat, List.dropLast_concat, bind,
    Except.bind] at h
  split at h
  · cases h
  · split at h
    · cases h
    · rename_i directory hwalk
      refine ⟨directory, hwalk, ?_⟩
      split at h
      · cases h
      · split at h
        · cases h
        · exact (Except.ok.inj h).symm

end Disk

namespace DirectoryStore

variable {ν : Type} [NameSupply ν]

/-- The name that a store is about to draw is fresh: it has never been handed out, and nothing
stands in the directory under it. -/
structure Fresh (store : DirectoryStore ν) : Prop where
  unissued : ¬NameSupply.Issued store.names store.nextName
  free (directory : List String) (h : store.disk.walk [] (Disk.names store.root) = .ok directory) :
    store.disk.entryAt? (Disk.recordPlace directory store.nextName) = none

/-- Numbered names are always fresh. -/
theorem fresh_serial (store : DirectoryStore Serial) : store.Fresh where
  unissued := by
    rintro ⟨n, hn, hname⟩
    have hle := Serial.le_unusedFrom store.disk store.root store.disk.entries.size
      store.names.issued
    exact absurd (RecordName.serial_injective hname) (by rw [Serial.next]; omega)
  free directory h := Disk.entryAt?_next h store.names

/-- A store has got the record of a document in a new file, and nothing else on its disk has
changed. -/
structure Deposited (document : Document) (before after : DirectoryStore ν)
    (directory : List String) (name : RecordName) : Prop where
  root : after.root = before.root
  /-- The file is directly in the directory of the store. -/
  leads : before.disk.walk [] (Disk.names before.root) = .ok directory
  /-- Its name has never been handed out before, and it is remembered from now on. -/
  unissued : ¬NameSupply.Issued before.names name ∧ NameSupply.Issued after.names name
  /-- It replaces nothing. -/
  free : before.disk.entryAt? (Disk.recordPlace directory name) = none
  /-- The document is read back from it. -/
  written : ∃ text, after.disk.entryAt? (Disk.recordPlace directory name) = some (.file text) ∧
    Document.ofRecord? text = some document
  others (place : List String) (h : place ≠ Disk.recordPlace directory name) :
    after.disk.entryAt? place = before.disk.entryAt? place

/-- The texts of the files in the directory of a store. -/
def texts (store : DirectoryStore ν) : List String :=
  match store.disk.walk [] (Disk.names store.root) with
  | .ok directory => store.disk.textsIn directory
  | .error _ => []

/-- When a document is kept, its record has been put at its place in the directory. -/
theorem put_of_persist {document : Document} {store : DirectoryStore ν}
    (h : (DocumentStore.persist document store).1 = .ok ()) :
    ∃ directory, store.disk.walk [] (Disk.names store.root) = .ok directory ∧
      (DocumentStore.persist document store).2 =
        ⟨store.root, store.disk.put (Disk.recordPlace directory store.nextName)
          (.file document.record), store.drawn.names⟩ := by
  simp only [persist_eq] at h ⊢
  split at h
  · rename_i disk hwrite
    obtain ⟨directory, hwalk, rfl⟩ := Disk.put_of_writeFile hwrite
    exact ⟨directory, hwalk, rfl⟩
  · cases h

/-- When a document is kept under a fresh name, its record is deposited. -/
theorem deposited_persist {document : Document} {store : DirectoryStore ν} (hfresh : store.Fresh)
    (h : (DocumentStore.persist document store).1 = .ok ()) :
    ∃ directory name,
      Deposited document store (DocumentStore.persist document store).2 directory name := by
  obtain ⟨directory, hleads, hafter⟩ := put_of_persist h
  have hentry := Disk.entryAt?_put store.disk
    (Disk.isAround_recordPlace directory store.nextName) (.file document.record)
  have hissued := NameSupply.issued_draw store.disk store.root store.names
  refine ⟨directory, store.nextName, ?_⟩
  rw [hafter]
  refine ⟨rfl, hleads, ⟨hfresh.unissued, hissued⟩, hfresh.free directory hleads, ?_, ?_⟩
  · exact ⟨document.record, by rw [hentry, if_pos rfl], document.ofRecord?_record⟩
  · intro place hplace
    rw [hentry, if_neg hplace]

/-- When a document is kept under a fresh name, its record is one more text in the directory. No
directory on the way there has been replaced. -/
theorem texts_persist {document : Document} {store : DirectoryStore ν} (hfresh : store.Fresh)
    (h : (DocumentStore.persist document store).1 = .ok ()) :
    (DocumentStore.persist document store).2.texts.Perm (document.record :: store.texts) := by
  obtain ⟨directory, hleads, hafter⟩ := put_of_persist h
  have hfree := hfresh.free directory hleads
  have hround := Disk.isAround_recordPlace directory store.nextName
  have hafterwards : (store.disk.put (Disk.recordPlace directory store.nextName)
      (.file document.record)).walk [] (Disk.names store.root) = .ok directory := by
    refine Disk.walk_of_directories (fun p hp => ?_) hleads
    have hne : p ≠ Disk.recordPlace directory store.nextName := by
      rintro rfl
      rw [hfree] at hp
      cases hp
    rw [Disk.entryAt?_put store.disk hround, if_neg hne]
    exact hp
  rw [hafter, texts, texts, drawn, hafterwards, hleads]
  exact Disk.textsIn_put store.disk hround hfree (Disk.outwards_recordPlace _ _) _

/-- The names that have been drawn make no difference to the texts in the directory. -/
theorem texts_drawn (store : DirectoryStore ν) : store.drawn.texts = store.texts := rfl

section Draws

/-- All draws are distinct, and those to come are of names under which nothing stands in the
directory. -/
structure Unused (store : DirectoryStore Draws) : Prop where
  distinct (m n : Nat) (h : store.names.outcome m = store.names.outcome n) : m = n
  free (directory : List String) (h : store.disk.walk [] (Disk.names store.root) = .ok directory)
    (n : Nat) (hn : store.names.made ≤ n) :
    store.disk.entryAt? (Disk.recordPlace directory (store.names.outcome n)) = none

variable {store : DirectoryStore Draws}

theorem Unused.fresh (h : store.Unused) : store.Fresh where
  unissued := by
    rintro ⟨n, hn, hname⟩
    exact absurd (h.distinct _ _ hname) (Nat.ne_of_lt hn)
  free directory hleads := h.free directory hleads store.names.made (Nat.le_refl _)

theorem Unused.drawn (h : store.Unused) : store.drawn.Unused where
  distinct := h.distinct
  free directory hleads n hn := h.free directory hleads n (Nat.le_of_succ_le hn)

/-- The record of a document is put under the name drawn for it, and leads to no new directory. -/
theorem Unused.persist (h : store.Unused) {document : Document}
    (hpersist : (DocumentStore.persist document store).1 = .ok ()) :
    (DocumentStore.persist document store).2.Unused := by
  obtain ⟨place, -, hafter⟩ := put_of_persist hpersist
  have hentry := Disk.entryAt?_put store.disk (Disk.isAround_recordPlace place store.nextName)
    (.file document.record)
  rw [hafter]
  refine ⟨h.distinct, fun directory hleads n hn => ?_⟩
  have hbefore : store.disk.walk [] (Disk.names store.root) = .ok directory := by
    refine Disk.walk_of_directories (fun p hp => ?_) hleads
    rw [hentry] at hp
    split at hp
    · cases hp
    · exact hp
  have hne : Disk.recordPlace directory (store.names.outcome n) ≠
      Disk.recordPlace place store.nextName := by
    intro heq
    have hname := (List.append_inj' heq rfl).2
    have hfile := RecordName.file_injective (List.singleton_inj.1 hname)
    exact absurd (h.distinct _ _ hfile) (Nat.ne_of_gt hn)
  have hfree := h.free directory hbefore n (Nat.le_of_succ_le hn)
  exact ((hentry _).trans (if_neg hne)).trans hfree

end Draws

end DirectoryStore

/-- The documents that a run reports as indexed, in order. -/
def reported (operations : List Operation) (outcomes : List Outcome) : List Document :=
  (operations.zip outcomes).filterMap fun (operation, outcome) =>
    if outcome.indexed?.isSome then operation.document? else none

/-- A requested document that is reported comes first. -/
theorem reported_cons_of_requests {operation : Operation} {document : Document} {outcome : Outcome}
    {id : DocId} (hrequests : operation.Requests document) (h : outcome.indexed? = some id)
    (operations : List Operation) (outcomes : List Outcome) :
    reported (operation :: operations) (outcome :: outcomes) =
      document :: reported operations outcomes := by
  simp [reported, h, Operation.requests_iff.1 hrequests]

/-- Nothing is reported by other outcomes. -/
theorem reported_cons_of_none {outcome : Outcome} (h : outcome.indexed? = none)
    (operation : Operation) (operations : List Operation) (outcomes : List Outcome) :
    reported (operation :: operations) (outcome :: outcomes) = reported operations outcomes := by
  simp [reported, h]

variable {ν : Type} [NameSupply ν]

/-- What an operation leaves behind in a directory store. -/
structure Leaves (operation : Operation) (outcome : Outcome) (before after : DirectoryStore ν) :
    Prop where
  /-- A document that is reported as indexed has been deposited, if its name was fresh. -/
  indexed (hfresh : before.Fresh) (id : DocId) (h : outcome.indexed? = some id) :
    ∃ document directory name, operation.Requests document ∧ document.id = id ∧
      DirectoryStore.Deposited document before after directory name
  /-- Any other operation leaves all files and directories as they are. -/
  otherwise (h : outcome.indexed? = none) :
    after.root = before.root ∧ after.disk.entries = before.disk.entries
  /-- No name that has been handed out is forgotten. -/
  remembered (name : RecordName) (h : NameSupply.Issued before.names name) :
    NameSupply.Issued after.names name

namespace Engine

/-- Every operation of a run finds a fresh name. -/
def FreshAlong (operations : List Operation) (engine : Engine (DirectoryStore ν)) : Prop :=
  ∀ before operation after, operations = before ++ operation :: after →
    (engine.run before).2.store.Fresh

theorem FreshAlong.tail {operation : Operation} {operations : List Operation}
    {engine : Engine (DirectoryStore ν)} (h : engine.FreshAlong (operation :: operations)) :
    (engine.perform operation).2.FreshAlong operations := by
  rintro before next after rfl
  exact h (operation :: before) next after rfl

/-- An operation either has a document kept and reports it, or nothing is reported and at most a
name has been drawn. -/
theorem perform_kept_or_drawn (operation : Operation) (engine : Engine (DirectoryStore ν)) :
    (∃ document, operation.Requests document ∧
      (engine.perform operation).1.indexed? = some document.id ∧
      (DocumentStore.persist document engine.store).1 = .ok () ∧
      (engine.perform operation).2.store = (DocumentStore.persist document engine.store).2) ∨
    ((engine.perform operation).1.indexed? = none ∧
      ((engine.perform operation).2.store = engine.store ∨
        (engine.perform operation).2.store = engine.store.drawn)) := by
  have heffect := effect_perform operation engine
  generalize engine.perform operation = after at heffect ⊢
  cases heffect with
  | refused fault hcommand => exact .inr ⟨operation.indexed?_failure fault, .inl rfl⟩
  | unreadable expression fault hcommand hparse =>
    exact .inr ⟨operation.indexed?_failure (.parse fault), .inl rfl⟩
  | answered expression e outcome hcommand hparse houtcome =>
    exact .inr ⟨outcome.indexed?_of_found? houtcome, .inl rfl⟩
  | kept document outcome hcommand hpersist houtcome =>
    exact .inl ⟨document, Operation.requests_iff_command.2 hcommand, houtcome, hpersist, rfl⟩
  | failed document fault hcommand hpersist =>
    exact .inr ⟨operation.indexed?_failure (.ofStoreFault fault),
      .inr (DirectoryStore.drawn_of_persist hpersist)⟩

/-- What every operation leaves behind, whatever has happened to the disk before. -/
theorem leaves_perform (operation : Operation) (engine : Engine (DirectoryStore ν)) :
    Leaves operation (engine.perform operation).1 engine.store
      (engine.perform operation).2.store := by
  have hdrawn (name : RecordName) (h : NameSupply.Issued engine.store.names name) :
      NameSupply.Issued engine.store.drawn.names name :=
    NameSupply.issued_of_issued engine.store.disk engine.store.root h
  rcases perform_kept_or_drawn operation engine with
    ⟨document, hrequests, houtcome, hpersist, hafter⟩ | ⟨hnone, hafter | hafter⟩
  · rw [hafter]
    refine ⟨fun hfresh id h => ?_, fun h => ?_, fun name h => ?_⟩
    · obtain ⟨directory, name, hdeposited⟩ := DirectoryStore.deposited_persist hfresh hpersist
      exact ⟨document, directory, name, hrequests, Option.some.inj (houtcome.symm.trans h),
        hdeposited⟩
    · cases houtcome.symm.trans h
    · obtain ⟨_, -, hput⟩ := DirectoryStore.put_of_persist hpersist
      rw [hput]
      exact hdrawn name h
  · rw [hafter]
    refine ⟨fun _ id h => ?_, fun _ => ⟨rfl, rfl⟩, fun _ h => h⟩
    cases hnone.symm.trans h
  · rw [hafter]
    refine ⟨fun _ id h => ?_, fun _ => ⟨rfl, rfl⟩, hdrawn⟩
    cases hnone.symm.trans h

/-- A run with fresh names adds the records of the documents that it reports to the directory, and
no other texts. -/
theorem texts_run (operations : List Operation) {engine : Engine (DirectoryStore ν)}
    (hfresh : engine.FreshAlong operations) :
    ((engine.run operations).2.store.texts.map Document.ofRecord?).Perm
      (engine.store.texts.map Document.ofRecord? ++
        (reported operations (engine.run operations).1).map some) := by
  induction operations generalizing engine with
  | nil => simp [run, reported]
  | cons operation operations ih =>
    change List.Perm (((engine.perform operation).2.run operations).2.store.texts.map _)
      (_ ++ (reported (operation :: operations)
        ((engine.perform operation).1 :: ((engine.perform operation).2.run operations).1)).map some)
    refine (ih hfresh.tail).trans ?_
    rcases perform_kept_or_drawn operation engine with
      ⟨document, hrequests, houtcome, hpersist, hafter⟩ | ⟨hnone, hafter⟩
    · have hhead : engine.store.Fresh := hfresh [] operation operations rfl
      have htexts := (DirectoryStore.texts_persist hhead hpersist).map Document.ofRecord?
      rw [List.map_cons, document.ofRecord?_record] at htexts
      rw [hafter, reported_cons_of_requests hrequests houtcome, List.map_cons]
      exact (htexts.append_right _).trans List.perm_middle.symm
    · have htexts : (engine.perform operation).2.store.texts = engine.store.texts := by
        rcases hafter with hafter | hafter
        · rw [hafter]
        · rw [hafter, DirectoryStore.texts_drawn]
      rw [htexts, reported_cons_of_none hnone]

/-- An operation draws at most one of the names to come, and uses no other. -/
theorem unused_perform {engine : Engine (DirectoryStore Draws)} (h : engine.store.Unused)
    (operation : Operation) : (engine.perform operation).2.store.Unused := by
  rcases perform_kept_or_drawn operation engine with
    ⟨document, -, -, hpersist, hafter⟩ | ⟨-, hafter | hafter⟩
  · rw [hafter]
    exact h.persist hpersist
  · rwa [hafter]
  · rw [hafter]
    exact h.drawn

/-- Distinct draws of names that are not in use at the start are fresh along any run. -/
theorem freshAlong_draws {engine : Engine (DirectoryStore Draws)} (h : engine.store.Unused)
    (operations : List Operation) : engine.FreshAlong operations := by
  have hrun (before : List Operation) : (engine.run before).2.store.Unused := by
    induction before generalizing engine with
    | nil => exact h
    | cons operation before ih => exact ih (unused_perform h operation)
  intro before operation after _
  exact (hrun before).fresh

/-- Over a directory store with any supply of names, whatever becomes of its directory between the
operations, each document reported as indexed under a fresh name is deposited in a new file of its
own, and other operations leave all files as they are. When nothing else touches the disk and the
names stay fresh, a run adds to the directory the records of just the documents that it reports.
Numbered names are always fresh, and distinct draws are fresh along any run that begins without
files of their names. -/
theorem run_deposits :
    (∀ {ν : Type} [NameSupply ν] (engine : Engine (DirectoryStore ν)),
      (∀ operation : Operation,
        Leaves operation (engine.perform operation).1 engine.store
          (engine.perform operation).2.store) ∧
      ∀ operations : List Operation, engine.FreshAlong operations →
        ((engine.run operations).2.store.texts.map Document.ofRecord?).Perm
          (engine.store.texts.map Document.ofRecord? ++
            (reported operations (engine.run operations).1).map some)) ∧
    (∀ store : DirectoryStore Serial, store.Fresh) ∧
    ∀ (engine : Engine (DirectoryStore Draws)) (operations : List Operation),
      engine.store.Unused → engine.FreshAlong operations :=
  ⟨fun engine => ⟨fun operation => leaves_perform operation engine,
      fun operations hfresh => texts_run operations hfresh⟩,
    DirectoryStore.fresh_serial, fun _ operations hunused => freshAlong_draws hunused operations⟩

/-- A document that is kept, and one that is lost because the directory has been removed. -/
theorem run_deposits_removed_directory :
    let disk := ({} : Disk).put ["docs"] .directory
    let engine := Engine.mk .empty (DirectoryStore.mk "docs/" disk (Draws.mk .serial 0))
    let kept := Operation.execute "index 2 cat dog cat"
    let lost := Operation.index 3 ["cat"]
    let after := (engine.perform kept).2
    let removed := Engine.mk after.index { after.store with disk := after.store.disk.remove "docs" }
    engine.store.Unused ∧
      (engine.perform kept).1.indexed? = some 2 ∧
      (∃ document directory name, kept.Requests document ∧ document.id = 2 ∧
        DirectoryStore.Deposited document engine.store after.store directory name) ∧
      (removed.perform lost).1.indexed? = none ∧
      (removed.perform lost).2.store.disk.entries = removed.store.disk.entries ∧
      ((engine.run [kept, lost]).2.store.texts.map Document.ofRecord?).Perm
        [some ⟨2, ["cat", "dog", "cat"]⟩, some ⟨3, ["cat"]⟩] := by
  intro disk engine kept lost after removed
  have hunused : engine.store.Unused := by
    refine ⟨fun _ _ => RecordName.serial_injective, fun directory hleads n _ => ?_⟩
    have hdirectory : disk.walk [] (Disk.names "docs/") = .ok ["docs"] := by decide +kernel
    obtain rfl : ["docs"] = directory := Except.ok.inj (hdirectory.symm.trans hleads)
    have hempty : ({} : Disk).entryAt? (Disk.recordPlace ["docs"] (.serial n)) = none := by
      simp [Disk.entryAt?]
    have hround : Disk.isAround ["docs"] = false := by decide
    exact (Disk.entryAt?_put {} hround .directory _).trans
      ((if_neg (by simp [Disk.recordPlace])).trans hempty)
  have halong := run_deposits.2.2 engine [kept, lost] hunused
  have hrun := (run_deposits.1 engine).2 [kept, lost] halong
  have hbefore : engine.store.texts = [] := by decide +kernel
  have hreported : reported [kept, lost] (engine.run [kept, lost]).1 =
      [⟨2, ["cat", "dog", "cat"]⟩, ⟨3, ["cat"]⟩] := by
    decide +kernel
  rw [hbefore, hreported] at hrun
  have hindexed : (engine.perform kept).1.indexed? = some 2 := by decide +kernel
  have hlost : (removed.perform lost).1.indexed? = none := by decide +kernel
  exact ⟨hunused, hindexed,
    ((run_deposits.1 engine).1 kept).indexed (halong [] kept [lost] rfl) 2 hindexed, hlost,
    (((run_deposits.1 removed).1 lost).otherwise hlost).2, hrun⟩

end Engine

end TokenSearch
