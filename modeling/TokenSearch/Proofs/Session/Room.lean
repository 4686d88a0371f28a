import TokenSearch.Proofs.Session.Transcript

/-!
# Sessions with limited room for their output

A session whose output has limited room does the same as one without a limit, up to the line of
output that does not fit. So its output is the beginning of the other's, as much as fits, and it
carries out just the commands before which no more is written than fits: the last of them may be
the one whose reply does not fit.
-/

namespace TokenSearch.Session

open Text.Utf8

/-- A command and all that is written before it is carried out. -/
structure Due where
  written : List UInt8
  command : String

variable {σ : Type}

/-- What becomes of a session when the output has room for `n` bytes, some of them written
already: it stops with the engine that is reached when the rest does not fit. -/
def limit (n : Nat) (written : List UInt8) (free : Result σ) (stopped : Engine σ) : Result σ :=
  if (written ++ free.output).length ≤ n then free
  else ⟨.error .outputFull, free.output.take (n - written.length), stopped⟩

theorem writeLine_none (text : String) (engine : Engine σ) (next : Option Nat → Result σ) :
    writeLine none text engine next =
      { next none with output := lineBytes text ++ (next none).output } := rfl

theorem writeLine_some (room : Nat) (text : String) (engine : Engine σ)
    (next : Option Nat → Result σ) :
    writeLine (some room) text engine next =
      if (lineBytes text).length ≤ room then
        let rest := next (some (room - (lineBytes text).length))
        { rest with output := lineBytes text ++ rest.output }
      else ⟨.error .outputFull, (lineBytes text).take room, engine⟩ := rfl

/-- A line is limited when what comes after it is. -/
theorem writeLine_limit {n : Nat} {written : List UInt8} {text : String}
    {engine stopped : Engine σ} {next : Option Nat → Result σ} (hwritten : written.length ≤ n)
    (hfits : (written ++ lineBytes text).length ≤ n →
      next (some (n - (written ++ lineBytes text).length)) =
        limit n (written ++ lineBytes text) (next none) stopped)
    (hfull : n < (written ++ lineBytes text).length → stopped = engine) :
    writeLine (some (n - written.length)) text engine next =
      limit n written (writeLine none text engine next) stopped := by
  have hlength : (written ++ lineBytes text).length = written.length + (lineBytes text).length :=
    List.length_append
  rw [writeLine_some, writeLine_none]
  by_cases hfit : (lineBytes text).length ≤ n - written.length
  · have hroom : n - written.length - (lineBytes text).length =
        n - (written ++ lineBytes text).length := by omega
    have htake : ((lineBytes text) ++ (next none).output).take (n - written.length) =
        lineBytes text ++ (next none).output.take (n - (written ++ lineBytes text).length) := by
      rw [List.take_append, List.take_of_length_le hfit, hroom]
    rw [if_pos hfit, hroom, hfits (by omega), limit, limit, htake, List.append_assoc]
    split <;> rfl
  · have hlong : ¬(written ++ (lineBytes text ++ (next none).output)).length ≤ n := by
      rw [← List.append_assoc, List.length_append]
      omega
    rw [if_neg hfit, limit, if_neg hlong, hfull (by omega),
      List.take_append_of_le_length (by omega)]

variable [DocumentStore σ]

/-- The commands of a script, behind what has been written already. -/
def due (written : List UInt8) (engine : Engine σ) : List Step → List Due
  | [] => []
  | .ask question :: steps => due (written ++ lineBytes question) engine steps
  | .command line :: steps =>
    ⟨written, line⟩ ::
      due (written ++ lineBytes (engine.execute line).1.text) (engine.execute line).2 steps

/-- The commands before which at most `n` bytes are written. -/
def within (n : Nat) (dues : List Due) : List String :=
  (dues.filter (·.written.length ≤ n)).map Due.command

/-- What is written before a command of a script is the transcript of the steps before it. -/
theorem exists_steps_of_mem_due {written : List UInt8} {engine : Engine σ} {steps : List Step}
    {d : Due} (h : d ∈ due written engine steps) :
    ∃ before after, steps = before ++ .command d.command :: after ∧
      d.written = written ++ transcript engine before := by
  induction steps generalizing written engine with
  | nil => cases h
  | cons step steps ih =>
    cases step with
    | ask question =>
      obtain ⟨before, after, rfl, hwritten⟩ := ih h
      refine ⟨.ask question :: before, after, rfl, ?_⟩
      rw [hwritten, transcript, List.append_assoc]
    | command line =>
      rcases List.mem_cons.1 h with rfl | h
      · exact ⟨[], steps, rfl, (List.append_nil written).symm⟩
      · obtain ⟨before, after, rfl, hwritten⟩ := ih h
        refine ⟨.command line :: before, after, rfl, ?_⟩
        rw [hwritten, transcript, List.append_assoc]

theorem map_command_due (written : List UInt8) (engine : Engine σ) (steps : List Step) :
    (due written engine steps).map Due.command = commands steps := by
  induction steps generalizing written engine with
  | nil => rfl
  | cons step steps ih =>
    cases step with
    | ask question => rw [due, ih, commands_ask]
    | command line => simp only [due, List.map_cons, ih, commands_command]

/-- No command is left once more is written than fits. -/
theorem within_due_of_lt {n : Nat} {written : List UInt8} (h : n < written.length)
    (engine : Engine σ) (steps : List Step) : within n (due written engine steps) = [] := by
  have hnone : (due written engine steps).filter (·.written.length ≤ n) = [] := by
    rw [List.filter_eq_nil_iff]
    intro d hd
    obtain ⟨before, after, -, hwritten⟩ := exists_steps_of_mem_due hd
    have hlength := congrArg List.length hwritten
    rw [List.length_append] at hlength
    simp only [decide_eq_true_eq]
    omega
  rw [within, hnone, List.map_nil]

/-- A script that is played with limited room. What has been written so far always fits: once it
does not, the session has stopped. -/
theorem play_some (outcome : Except Fault Nat) (n : Nat) (written : List UInt8)
    (hwritten : written.length ≤ n) (engine : Engine σ) (steps : List Step) :
    play outcome (some (n - written.length)) engine steps =
      limit n written (play outcome none engine steps)
        (engine.executeAll (within n (due written engine steps))).2 := by
  induction steps generalizing written engine with
  | nil => simp [play, limit, hwritten]
  | cons step steps ih =>
    cases step with
    | ask question =>
      rw [play, play, due]
      refine writeLine_limit hwritten (fun hfits => ih _ hfits engine) fun hfull => ?_
      rw [within_due_of_lt hfull, Engine.executeAll]
    | command line =>
      have hwithin : within n (due written engine (.command line :: steps)) =
          line :: within n (due (written ++ lineBytes (engine.execute line).1.text)
            (engine.execute line).2 steps) := by
        simp only [due, within, List.filter_cons, hwritten, decide_true, if_true, List.map_cons]
      rw [hwithin, play, play, Engine.executeAll]
      refine writeLine_limit hwritten (fun hfits => ih _ hfits (engine.execute line).2)
        fun hfull => ?_
      rw [within_due_of_lt hfull, Engine.executeAll]

/-- A session without a limit carries out all that is due. -/
theorem engine_run_none (mode : Mode) (engine : Engine σ) (input : List UInt8) :
    (run mode none engine input).engine =
      (engine.executeAll ((due [] engine (scriptOf mode input)).map Due.command)).2 := by
  rw [map_command_due, run_none]

/-- A session with limited room is a limited session. -/
theorem run_some_eq_limit (mode : Mode) (n : Nat) (engine : Engine σ) (input : List UInt8) :
    run mode (some n) engine input =
      limit n [] (run mode none engine input)
        (engine.executeAll (within n (due [] engine (scriptOf mode input)))).2 := by
  rw [run_eq_play, run_eq_play]
  exact play_some (ending 0 mode (lines input)) n [] (Nat.zero_le n) engine (scriptOf mode input)

/-- What is written before a command is what the session writes on the input before its line. -/
theorem exists_start_of_mem_due {mode : Mode} {engine : Engine σ} {input : List UInt8} {d : Due}
    (h : d ∈ due [] engine (scriptOf mode input)) :
    ∃ start line rest, lines input = lines start ++ line :: rest ∧
      decode? line = some d.command.toList ∧ d.written = (run mode none engine start).output := by
  obtain ⟨before, after, hscript, hwritten⟩ := exists_steps_of_mem_due h
  obtain ⟨earlier, text, later, htexts, hcommand, hearlier⟩ := exists_texts_of_script hscript
  obtain ⟨start, line, rest, hlines, hline, -, hstart⟩ := exists_lines_of_texts htexts
  have hflatten : lines start.flatten = start :=
    lines_flatten_of_append hlines (List.cons_ne_nil line rest)
  refine ⟨start.flatten, line, rest, by rw [hflatten, hlines], ?_, ?_⟩
  · rw [hline, ← hcommand, String.toList_ofList]
  · rw [hwritten, run_none, scriptOf, hflatten, hstart, hearlier, List.nil_append]

/-- A session with limited room has the beginning of the output that it has without a limit, as
much as fits. If all of it fits, nothing is different. Otherwise the session fails at the line
that does not fit, and it has carried out those commands of the other session before which no
more is written than fits. What is written before a command is what the session writes on the
input before the line of the command. -/
theorem run_some (mode : Mode) (n : Nat) (engine : Engine σ) (input : List UInt8) :
    let free := run mode none engine input
    let dues := due [] engine (scriptOf mode input)
    (run mode (some n) engine input).output = free.output.take n ∧
      run mode (some n) engine input =
        (if free.output.length ≤ n then free
         else ⟨.error .outputFull, free.output.take n,
          (engine.executeAll (within n dues)).2⟩) ∧
      free.engine = (engine.executeAll (dues.map Due.command)).2 ∧
      ∀ d ∈ dues, ∃ start line rest, lines input = lines start ++ line :: rest ∧
        decode? line = some d.command.toList ∧ d.written = (run mode none engine start).output := by
  intro free dues
  have hrun := run_some_eq_limit mode n engine input
  refine ⟨?_, hrun, engine_run_none mode engine input, fun d hd => exists_start_of_mem_due hd⟩
  rw [hrun, limit]
  split
  · rename_i hfits
    exact (List.take_of_length_le hfits).symm
  · rfl

/-- The first reply is cut off behind eight bytes, and its document is kept. -/
example :
    let input := encode "index 1 cat\nindex 2 dog\n".toList
    let result := run .batch (some 8) (Engine.mk .empty (MemoryStore.mk #[])) input
    result.outcome = .error .outputFull ∧ result.output = encode "index ok".toList ∧
      result.engine.store.records = #[⟨1, ["cat"]⟩] := by
  decide +kernel

end TokenSearch.Session
