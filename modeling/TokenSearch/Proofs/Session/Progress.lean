import TokenSearch.Proofs.Session.Transcript
import TokenSearch.Proofs.TrailingBlanks
import TokenSearch.Session.Progress

/-!
# Sessions line by line

A session that is held line by line writes the same, ends the same way and leaves the same engine
as the session over the whole input. It makes no difference either when its documents are kept
elsewhere and it is only told how that has ended. The program holds its session in this way.
-/

namespace TokenSearch.Session

open Text.Utf8

namespace Progress

section Feed

variable {σ : Type} [DocumentStore σ] {line : List UInt8} {text : List Char}

theorem feed_ended (mode : Mode) (engine : Engine σ) (executed : Nat) (fault : Option Fault)
    (line : List UInt8) :
    feed mode ⟨engine, executed, .ended fault⟩ line = ([], ⟨engine, executed, .ended fault⟩) := rfl

/-- A session that has ended takes no notice of further lines. -/
theorem feedAll_ended (mode : Mode) (engine : Engine σ) (executed : Nat) (fault : Option Fault)
    (lines : List (List UInt8)) :
    feedAll mode ⟨engine, executed, .ended fault⟩ lines =
      ([], ⟨engine, executed, .ended fault⟩) := by
  induction lines with
  | nil => rfl
  | cons line rest ih => simp only [feedAll, feed_ended, ih, List.append_nil]

/-- A command that is not UTF-8 breaks a session off. -/
theorem feed_command_none (h : decode? line = none) (mode : Mode) (engine : Engine σ)
    (executed : Nat) :
    feed mode ⟨engine, executed, .command⟩ line =
      ([], ⟨engine, executed, .ended (some .notUtf8)⟩) := by
  simp only [feed, h]

/-- So does an answer. -/
theorem feed_answer_none (h : decode? line = none) (mode : Mode) (engine : Engine σ)
    (executed : Nat) :
    feed mode ⟨engine, executed, .answer⟩ line =
      ([], ⟨engine, executed, .ended (some .notUtf8)⟩) := by
  simp only [feed, h]

/-- A blank line of a batch session is passed over. -/
theorem feed_blank (h : decode? line = some text) (hblank : isBlankLine text = true)
    (engine : Engine σ) (executed : Nat) :
    feed .batch ⟨engine, executed, .command⟩ line = ([], ⟨engine, executed, .command⟩) := by
  simp [feed, h, hblank]

/-- Any other line of a batch session is carried out. -/
theorem feed_batch (h : decode? line = some text) (hblank : isBlankLine text = false)
    (engine : Engine σ) (executed : Nat) :
    feed .batch ⟨engine, executed, .command⟩ line =
      ([(engine.execute (String.ofList text)).1.text],
        ⟨(engine.execute (String.ofList text)).2, executed + 1, .command⟩) := by
  simp [feed, h, hblank]

/-- An interactive session carries out a command and asks whether to go on. -/
theorem feed_interactive (h : decode? line = some text) (engine : Engine σ) (executed : Nat) :
    feed .interactive ⟨engine, executed, .command⟩ line =
      ([(engine.execute (String.ofList text)).1.text, continuePrompt],
        ⟨(engine.execute (String.ofList text)).2, executed + 1, .answer⟩) := by
  simp [feed, h]

/-- A session goes on as the answer asks. -/
theorem feed_affirmed (h : decode? line = some text) (haffirms : affirms text = true) (mode : Mode)
    (engine : Engine σ) (executed : Nat) :
    feed mode ⟨engine, executed, .answer⟩ line =
      (questions mode, ⟨engine, executed, .command⟩) := by
  simp [feed, h, haffirms]

/-- It ends after any other answer. -/
theorem feed_refused (h : decode? line = some text) (haffirms : affirms text = false) (mode : Mode)
    (engine : Engine σ) (executed : Nat) :
    feed mode ⟨engine, executed, .answer⟩ line = ([], ⟨engine, executed, .ended none⟩) := by
  simp [feed, h, haffirms]

/-- A batch session is held line by line. -/
theorem batch_eq_feedAll (executed : Nat) (engine : Engine σ) (lines : List (List UInt8)) :
    batch executed none engine lines =
      let (texts, session) := feedAll .batch ⟨engine, executed, .command⟩ lines
      ⟨session.outcome, texts.flatMap lineBytes, session.engine⟩ := by
  induction lines generalizing executed engine with
  | nil => rfl
  | cons line rest ih =>
    cases hline : decode? line with
    | none =>
      simp only [batch, hline, feedAll, feed_command_none hline, feedAll_ended]
      rfl
    | some command =>
      cases hblank : isBlankLine command with
      | true =>
        simp only [batch, hline, hblank, if_true, ih, feedAll, feed_blank hline hblank,
          List.nil_append]
      | false =>
        simp only [batch, hline, hblank, Bool.false_eq_true, if_false, writeLine, ih, feedAll,
          feed_batch hline hblank]
        rfl

/-- An interactive session is held line by line, after its first question. -/
theorem interactive_eq_feedAll (executed : Nat) (engine : Engine σ) :
    ∀ lines : List (List UInt8), interactive executed none engine lines =
      let (texts, session) := feedAll .interactive ⟨engine, executed, .command⟩ lines
      ⟨session.outcome, (prompt :: texts).flatMap lineBytes, session.engine⟩
  | [] => rfl
  | line :: rest => by
    cases hline : decode? line with
    | none =>
      simp only [interactive, hline, writeLine, feedAll, feed_command_none hline, feedAll_ended]
      rfl
    | some command =>
      have hfeed := feed_interactive hline engine executed
      cases rest with
      | nil =>
        simp only [interactive, hline, writeLine, feedAll, hfeed, List.append_nil]
        rfl
      | cons answerLine rest =>
        cases hanswer : decode? answerLine with
        | none =>
          simp only [interactive, hline, hanswer, writeLine, feedAll, hfeed,
            feed_answer_none hanswer, feedAll_ended]
          rfl
        | some answer =>
          cases haffirms : affirms answer with
          | true =>
            have hrest := interactive_eq_feedAll (executed + 1)
              (engine.execute (String.ofList command)).2 rest
            simp only [interactive, hline, hanswer, haffirms, if_true, writeLine, feedAll, hfeed,
              feed_affirmed hanswer haffirms, hrest]
            rfl
          | false =>
            simp only [interactive, hline, hanswer, haffirms, Bool.false_eq_true, if_false,
              writeLine, feedAll, hfeed, feed_refused hanswer haffirms, feedAll_ended]
            rfl

/-- A session without a limit is held line by line. -/
theorem run_none_eq_feedAll (mode : Mode) (engine : Engine σ) (input : List UInt8) :
    run mode none engine input =
      let (texts, session) := feedAll mode { engine } (lines input)
      ⟨session.outcome, (questions mode ++ texts).flatMap lineBytes, session.engine⟩ := by
  cases mode with
  | batch => exact batch_eq_feedAll 0 engine (lines input)
  | interactive => exact interactive_eq_feedAll 0 engine (lines input)

end Feed

section Relay

/-- A blank line is no command, so it has no document kept. -/
theorem document?_blank {τ : Type} {line : List UInt8} {text : List Char}
    (h : decode? line = some text) (hblank : isBlankLine text = true) (engine : Engine τ)
    (executed : Nat) : document? ⟨engine, executed, .command⟩ line = none := by
  have hindex (document : Document) :
      Command.parse (String.ofList text) ≠ .ok (.index document) := by
    intro hparse
    obtain ⟨arguments, hline, -⟩ := Command.parse_eq_index_iff.1 hparse
    obtain ⟨lineEnd, hsplit, -⟩ := Command.exists_lineEnd (String.ofList text).toList
    rw [hline, String.toList_ofList] at hsplit
    have hletter : 'i' ∈ text := by
      rw [hsplit]
      exact List.mem_append_left _ (List.mem_append_left _ (by decide))
    exact absurd (List.all_eq_true.1 hblank 'i' hletter) (by decide)
  simp only [document?, h]

variable {σ : Type} [DocumentStore σ]

/-- What a store makes of the document of a line, if it has one. -/
def kept (session : Progress Relay) (line : List UInt8) (store : σ) :
    Except StoreFault Unit × σ :=
  match session.document? line with
  | some document => DocumentStore.persist document store
  | none => (.ok (), store)

theorem relay_eq (mode : Mode) (session : Progress Relay) (line : List UInt8) (store : σ) :
    session.relay (m := StateM σ) DocumentStore.persist mode line store =
      ((session.withStore (Relay.mk (session.kept line store).1)).feed mode line,
        (session.kept line store).2) := by
  unfold relay kept
  cases session.document? line <;> rfl

/-- An engine carries out a line as one that is told what the store makes of its document. -/
theorem execute_kept {line : List UInt8} {text : List Char} (h : decode? line = some text)
    (index : Index) (store : σ) (told : Relay) (executed : Nat) :
    let kept := kept ⟨⟨index, told⟩, executed, .command⟩ line store
    let relayed := (Engine.mk index (Relay.mk kept.1)).execute (String.ofList text)
    (Engine.mk index store).execute (String.ofList text) =
      (relayed.1, ⟨relayed.2.index, kept.2⟩) := by
  simp only [kept, document?, h, Engine.execute]
  cases Command.parse (String.ofList text) with
  | error fault => rfl
  | ok command => cases command <;> rfl

/-- A session takes a line as one that is told what the store makes of its document. -/
theorem feed_withStore (mode : Mode) (session : Progress Relay) (line : List UInt8) (store : σ) :
    let relayed := session.relay (m := StateM σ) DocumentStore.persist mode line store
    (session.withStore store).feed mode line = (relayed.1.1, relayed.1.2.withStore relayed.2) := by
  rw [relay_eq]
  obtain ⟨⟨index, told⟩, executed, stage⟩ := session
  cases stage with
  | ended fault => rfl
  | answer =>
    simp only [withStore]
    cases hline : decode? line with
    | none =>
      rw [feed_answer_none hline, feed_answer_none hline]
      rfl
    | some answer =>
      cases haffirms : affirms answer with
      | true =>
        rw [feed_affirmed hline haffirms, feed_affirmed hline haffirms]
        rfl
      | false =>
        rw [feed_refused hline haffirms, feed_refused hline haffirms]
        rfl
  | command =>
    simp only [withStore]
    cases hline : decode? line with
    | none =>
      rw [feed_command_none hline, feed_command_none hline, kept]
      simp only [document?, hline]
    | some command =>
      have hexecute := execute_kept hline index store told executed
      cases mode with
      | interactive =>
        rw [feed_interactive hline, feed_interactive hline, hexecute]
      | batch =>
        cases hblank : isBlankLine command with
        | true =>
          rw [feed_blank hline hblank, feed_blank hline hblank, kept, document?_blank hline hblank]
        | false => rw [feed_batch hline hblank, feed_batch hline hblank, hexecute]

/-- So it takes any number of lines. -/
theorem feedAll_withStore (mode : Mode) (session : Progress Relay) (lines : List (List UInt8))
    (store : σ) :
    let relayed := session.relayAll (m := StateM σ) DocumentStore.persist mode lines store
    (session.withStore store).feedAll mode lines =
      (relayed.1.1, relayed.1.2.withStore relayed.2) := by
  induction lines generalizing session store with
  | nil => rfl
  | cons line rest ih =>
    simp only [feedAll, feed_withStore, ih]
    rfl

/-- A session without a limit can be held line by line by whoever keeps its documents in the store
of its engine. -/
theorem run_none_eq_relayAll (mode : Mode) (engine : Engine σ) (input : List UInt8) :
    let start : Progress Relay := { engine := ⟨engine.index, {}⟩ }
    let held := start.relayAll (m := StateM σ) DocumentStore.persist mode (lines input) engine.store
    run mode none engine input =
      ⟨held.1.2.outcome, (questions mode ++ held.1.1).flatMap lineBytes,
        ⟨held.1.2.engine.index, held.2⟩⟩ := by
  intro start held
  have hheld : feedAll mode { engine } (lines input) = (held.1.1, held.1.2.withStore held.2) :=
    feedAll_withStore mode start (lines input) engine.store
  rw [run_none_eq_feedAll, hheld]
  rfl

end Relay

end Progress

end TokenSearch.Session
