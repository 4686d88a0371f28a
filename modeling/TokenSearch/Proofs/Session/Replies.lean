import TokenSearch.Proofs.Atomicity
import TokenSearch.Proofs.Session.Room
import TokenSearch.Proofs.StoreErrors
import TokenSearch.Proofs.Wording

/-!
# Replies on one line

No reply has a line feed as long as the errors of the store have none, whatever line it answers.
So a batch session on a text writes one line for each of its commands, which is the reply to this
command after all commands before it.
-/

namespace TokenSearch

open DocumentStore

namespace Reply

theorem feed_not_mem_intercalate {texts : List String} (h : ∀ text ∈ texts, '\n' ∉ text.toList) :
    '\n' ∉ (", ".intercalate texts).toList := by
  rw [String.toList_intercalate]
  induction texts with
  | nil => decide
  | cons text texts ih =>
    obtain ⟨hfirst, hrest⟩ := List.forall_mem_cons.1 h
    cases texts with
    | nil => simpa using hfirst
    | cons next texts =>
      rw [List.map_cons, List.map_cons, List.intercalate_cons_cons, ← List.map_cons]
      simp only [List.mem_append, not_or]
      exact ⟨⟨hfirst, by decide⟩, ih hrest⟩

/-- A reply that reports no fault has no words but its own, and numbers. -/
theorem feed_not_mem_of_isError {reply : Reply} (h : reply.isError = false) :
    '\n' ∉ reply.text.toList := by
  unfold text
  match reply, h with
  | .indexed id, _ => simpa using id.feed_not_mem_text
  | .results ids, _ =>
    have hids : '\n' ∉ (", ".intercalate (ids.toList.map DocId.text)).toList :=
      feed_not_mem_intercalate (List.forall_mem_map.2 fun id _ => id.feed_not_mem_text)
    simpa using hids

theorem feed_not_mem_ofFault {fault : EngineFault} (h : '\n' ∉ fault.message.toList) :
    '\n' ∉ (ofFault fault).text.toList := by
  unfold text
  cases fault with
  | invalidCommand => exact h
  | parse fault =>
    have hmessage : '\n' ∉ fault.message.toList := h
    simpa [ofFault] using hmessage
  | _ => simpa [ofFault] using h

end Reply

namespace Engine

variable {σ : Type} [DocumentStore σ]

/-- The fault of a command line is worded on one line when those of the store are. -/
theorem feed_not_mem_of_fault? {engine : Engine σ} (h : ReportsOnOneLine engine.store)
    {line : String} {fault : EngineFault} (hfault : engine.fault? (.execute line) = some fault) :
    '\n' ∉ fault.message.toList := by
  unfold fault? at hfault
  split at hfault
  · rename_i hcommand
    cases hfault
    obtain ⟨cause, hparse, rfl⟩ := Operation.command_execute_error.1 hcommand
    cases cause with
    | unknown => decide
    | document cause => exact Command.feed_not_mem_of_parse_error hparse
  · split at hfault <;> cases hfault
    rename_i hparse
    exact Expr.feed_not_mem_of_parse_error hparse
  · split at hfault <;> cases hfault
    rename_i document _ _ cause hpersist
    cases cause with
    | error error => exact h [] document error hpersist
    | crash => decide

/-- A reply has a line feed only if the error of the store has one. -/
theorem feed_not_mem_execute {engine : Engine σ} (h : ReportsOnOneLine engine.store)
    (line : String) : '\n' ∉ (engine.execute line).1.text.toList := by
  have hconfined := confined_perform (.execute line) engine
  cases hfault : engine.fault? (.execute line) with
  | none =>
    have herror := hconfined.isError
    rw [hfault] at herror
    exact Reply.feed_not_mem_of_isError herror
  | some fault =>
    have hreply : (engine.execute line).1 = .ofFault fault :=
      Outcome.replied.inj (hconfined.reported fault hfault)
    rw [hreply]
    exact Reply.feed_not_mem_ofFault (feed_not_mem_of_fault? h hfault)

/-- A command line leaves a store whose errors are worded as before. -/
theorem reportsOnOneLine_execute {engine : Engine σ} (h : ReportsOnOneLine engine.store)
    (line : String) : ReportsOnOneLine (engine.execute line).2.store := by
  have hengine : (engine.execute line).2 = _ := perform_engine (.execute line) engine
  rw [hengine]
  split
  · exact h.persist _
  · exact h

theorem reportsOnOneLine_executeAll {engine : Engine σ} (h : ReportsOnOneLine engine.store)
    (lines : List String) : ReportsOnOneLine (engine.executeAll lines).2.store := by
  induction lines generalizing engine with
  | nil => exact h
  | cons line lines ih => exact ih (reportsOnOneLine_execute h line)

/-- Each line is answered in the state that the lines before it have reached. -/
theorem getElem?_executeAll (engine : Engine σ) (lines : List String) (k : Nat) :
    (engine.executeAll lines).1[k]? =
      lines[k]?.map fun line => ((engine.executeAll (lines.take k)).2.execute line).1 := by
  induction lines generalizing engine k with
  | nil => rfl
  | cons line lines ih =>
    cases k with
    | zero => rfl
    | succ k => exact ih (engine.execute line).2 k

theorem length_executeAll (engine : Engine σ) (lines : List String) :
    (engine.executeAll lines).1.length = lines.length := by
  induction lines generalizing engine with
  | nil => rfl
  | cons line lines ih => exact congrArg Nat.succ (ih (engine.execute line).2)

end Engine

namespace Session

open Text.Utf8

variable {σ : Type} [DocumentStore σ]

/-- A line feed ends a line. -/
theorem textLines_append_feed {line : List Char} (h : '\n' ∉ line) (rest : List Char) :
    textLines (line ++ '\n' :: rest) = (line ++ ['\n']) :: textLines rest := by
  induction line with
  | nil => rfl
  | cons c line ih =>
    obtain ⟨hc, hline⟩ := List.ne_and_not_mem_of_not_mem_cons h
    rw [List.cons_append, textLines_cons hc.symm, ih hline]
    rfl

theorem textLines_flatMap_push {texts : List String} (h : ∀ text ∈ texts, '\n' ∉ text.toList) :
    textLines (texts.flatMap fun text => (text.push '\n').toList) =
      texts.map fun text => (text.push '\n').toList := by
  induction texts with
  | nil => rfl
  | cons text texts ih =>
    obtain ⟨hfirst, hrest⟩ := List.forall_mem_cons.1 h
    rw [List.flatMap_cons, String.toList_push, List.append_assoc, List.singleton_append,
      textLines_append_feed hfirst, ih hrest, List.map_cons, String.toList_push]

/-- Texts on one line each are the lines of what is written. -/
theorem lines_flatMap_lineBytes {texts : List String} (h : ∀ text ∈ texts, '\n' ∉ text.toList) :
    lines (texts.flatMap lineBytes) = texts.map lineBytes := by
  have hencode : texts.flatMap lineBytes =
      encode (texts.flatMap fun text => (text.push '\n').toList) :=
    List.flatMap_assoc.symm
  rw [hencode, lines_encode, textLines_flatMap_push h, List.map_map]
  rfl

/-- The replies to command lines are the lines of what is written. -/
theorem lines_replies {engine : Engine σ} (h : ReportsOnOneLine engine.store)
    (commands : List String) :
    lines ((engine.executeAll commands).1.flatMap fun reply => lineBytes reply.text) =
      (engine.executeAll commands).1.map fun reply => lineBytes reply.text := by
  have htexts : ∀ text ∈ (engine.executeAll commands).1.map Reply.text, '\n' ∉ text.toList := by
    intro text htext
    obtain ⟨reply, hreply, rfl⟩ := List.mem_map.1 htext
    obtain ⟨k, hk⟩ := List.mem_iff_getElem?.1 hreply
    rw [Engine.getElem?_executeAll] at hk
    obtain ⟨line, -, rfl⟩ := Option.map_eq_some_iff.1 hk
    exact Engine.feed_not_mem_execute (Engine.reportsOnOneLine_executeAll h _) line
  have hlines := lines_flatMap_lineBytes htexts
  rwa [List.flatMap_map, List.map_map] at hlines

/-- A batch session on any text carries out the lines that are not blank. If the errors of the
store are worded on one line, now and later on, no reply has a line feed, so the output has one
line for each command: the `k`-th is the reply to the `k`-th line that is not blank, given after
the commands before it. A memory store has no errors. With limited room, as much of this output
is written as fits. -/
theorem lines_run_batch :
    (∀ store : MemoryStore, ReportsOnOneLine store) ∧
    ∀ {σ : Type} [DocumentStore σ] (engine : Engine σ), ReportsOnOneLine engine.store →
      ∀ text : List Char,
        let commands := ((textLines text).filter (!isBlankLine ·)).map String.ofList
        let result := run .batch none engine (encode text)
        result.outcome = .ok commands.length ∧
          (lines result.output).length = commands.length ∧
          (∀ k line, commands[k]? = some line →
            let reply := ((engine.executeAll (commands.take k)).2.execute line).1
            '\n' ∉ reply.text.toList ∧ (lines result.output)[k]? = some (lineBytes reply.text)) ∧
          ∀ n, (run .batch (some n) engine (encode text)).output = result.output.take n := by
  refine ⟨MemoryStore.reportsOnOneLine, fun {σ} _ engine h text => ?_⟩
  intro commands result
  have hresult : result = ⟨.ok commands.length,
      (engine.executeAll commands).1.flatMap fun reply => lineBytes reply.text,
      (engine.executeAll commands).2⟩ := by
    simp only [result, commands, run_none_encode, commands_script_batch, transcript_script_batch]
  have hlines : lines result.output =
      (engine.executeAll commands).1.map fun reply => lineBytes reply.text := by
    rw [hresult, lines_replies h]
  refine ⟨by rw [hresult], ?_, fun k line hline => ?_, fun n => ?_⟩
  · rw [hlines, List.length_map, Engine.length_executeAll]
  · refine ⟨Engine.feed_not_mem_execute (Engine.reportsOnOneLine_executeAll h _) line, ?_⟩
    rw [hlines, List.getElem?_map, Engine.getElem?_executeAll, hline]
    rfl
  · rw [run_some_eq_limit, limit]
    split
    · rename_i hfits
      exact (List.take_of_length_le hfits).symm
    · rfl

/-- Three commands and a blank line, where the records have no directory to go to. -/
theorem lines_run_batch_missing_directory :
    let engine := Engine.mk .empty (DirectoryStore.mk "docs" {} ({} : Serial))
    let text := "index 1 cat\n \nindex x cat\nquery cat ! dog".toList
    let commands := ["index 1 cat\n", "index x cat\n", "query cat ! dog"]
    let result := run .batch none engine (encode text)
    ReportsOnOneLine engine.store ∧ result.outcome = .ok 3 ∧ (lines result.output).length = 3 ∧
      ∀ k line, commands[k]? = some line →
        let reply := ((engine.executeAll (commands.take k)).2.execute line).1
        '\n' ∉ reply.text.toList ∧ (lines result.output)[k]? = some (lineBytes reply.text) := by
  intro engine text commands result
  have hengine : ReportsOnOneLine engine.store := DirectoryStore.reportsOnOneLine (by decide)
  have hcommands : ((textLines text).filter (!isBlankLine ·)).map String.ofList = commands := by
    decide +kernel
  have hsession := lines_run_batch.2 engine hengine text
  rw [hcommands] at hsession
  exact ⟨hengine, hsession.1, hsession.2.1, hsession.2.2.1⟩

end Session

end TokenSearch
