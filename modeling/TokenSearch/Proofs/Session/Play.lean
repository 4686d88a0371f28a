import TokenSearch.Proofs.Session.Script

/-!
# Sessions play their scripts

A session reads its lines as texts, up to the first line that is not UTF-8, and breaks off there
if it reads on so far. What it does on the way is to play the script of these texts, whatever
room its output has.
-/

namespace TokenSearch.Session

open Text.Utf8

/-- The texts of the lines before the first one that is not UTF-8. -/
def texts : List (List UInt8) → List (List Char)
  | [] => []
  | line :: rest =>
    match decode? line with
    | none => []
    | some text => text :: texts rest

/-- The script of a session over bytes. -/
def scriptOf (mode : Mode) (input : List UInt8) : List Step := script mode (texts (lines input))

/-- Whether some line is not UTF-8. -/
def isCut (lines : List (List UInt8)) : Bool := lines.any fun line => (decode? line).isNone

/-- How a session over lines ends, after a number of commands. -/
def ending (executed : Nat) (mode : Mode) (lines : List (List UInt8)) : Except Fault Nat :=
  if readsOn mode (texts lines) && isCut lines then .error .notUtf8
  else .ok (executed + (commands (script mode (texts lines))).length)

theorem texts_cons_none {line : List UInt8} (h : decode? line = none) (rest : List (List UInt8)) :
    texts (line :: rest) = [] := by
  rw [texts, h]

theorem texts_cons_some {line : List UInt8} {text : List Char} (h : decode? line = some text)
    (rest : List (List UInt8)) : texts (line :: rest) = text :: texts rest := by
  rw [texts, h]

theorem isCut_cons_none {line : List UInt8} (h : decode? line = none) (rest : List (List UInt8)) :
    isCut (line :: rest) = true := by
  simp [isCut, h]

theorem isCut_cons_some {line : List UInt8} {text : List Char} (h : decode? line = some text)
    (rest : List (List UInt8)) : isCut (line :: rest) = isCut rest := by
  simp [isCut, h]

theorem isCut_append (start rest : List (List UInt8)) :
    isCut (start ++ rest) = (isCut start || isCut rest) := List.any_append

/-- Lines behind one that is not UTF-8 are not read. -/
theorem texts_append_of_isCut {start : List (List UInt8)} (h : isCut start = true)
    (rest : List (List UInt8)) : texts (start ++ rest) = texts start := by
  induction start with
  | nil => cases h
  | cons line start ih =>
    cases hline : decode? line with
    | none => rw [List.cons_append, texts_cons_none hline, texts_cons_none hline]
    | some text =>
      rw [isCut_cons_some hline] at h
      rw [List.cons_append, texts_cons_some hline, texts_cons_some hline, ih h]

theorem texts_append {start : List (List UInt8)} (h : isCut start = false)
    (rest : List (List UInt8)) : texts (start ++ rest) = texts start ++ texts rest := by
  induction start with
  | nil => rfl
  | cons line start ih =>
    cases hline : decode? line with
    | none =>
      rw [isCut_cons_none hline] at h
      cases h
    | some text =>
      rw [isCut_cons_some hline] at h
      rw [List.cons_append, texts_cons_some hline, texts_cons_some hline, ih h, List.cons_append]

/-- Each text is that of a line, and the texts before it are those of the lines before. -/
theorem exists_lines_of_texts {lines : List (List UInt8)} {earlier later : List (List Char)}
    {text : List Char} (h : texts lines = earlier ++ text :: later) :
    ∃ before line after, lines = before ++ line :: after ∧ decode? line = some text ∧
      isCut before = false ∧ texts before = earlier := by
  induction lines generalizing earlier with
  | nil => exact absurd h (by simp [texts])
  | cons line lines ih =>
    cases hline : decode? line with
    | none =>
      rw [texts_cons_none hline] at h
      simp at h
    | some first =>
      rw [texts_cons_some hline] at h
      cases earlier with
      | nil =>
        obtain ⟨rfl, -⟩ := List.cons.inj h
        exact ⟨[], line, lines, rfl, hline, rfl, rfl⟩
      | cons first earlier =>
        obtain ⟨rfl, hrest⟩ := List.cons.inj h
        obtain ⟨before, found, after, rfl, hfound, hcut, hbefore⟩ := ih hrest
        exact ⟨line :: before, found, after, rfl, hfound, by rw [isCut_cons_some hline, hcut],
          by rw [texts_cons_some hline, hbefore]⟩

/-- If some line is not UTF-8, there is a first one. -/
theorem exists_first_of_isCut {lines : List (List UInt8)} (h : isCut lines = true) :
    ∃ before bad after, lines = before ++ bad :: after ∧ decode? bad = none ∧
      isCut before = false := by
  induction lines with
  | nil => cases h
  | cons line lines ih =>
    cases hline : decode? line with
    | none => exact ⟨[], line, lines, rfl, hline, rfl⟩
    | some text =>
      rw [isCut_cons_some hline] at h
      obtain ⟨before, bad, after, rfl, hbad, hbefore⟩ := ih h
      exact ⟨line :: before, bad, after, rfl, hbad, by rw [isCut_cons_some hline, hbefore]⟩

theorem ending_error {executed : Nat} {mode : Mode} {lines : List (List UInt8)}
    (hreads : readsOn mode (texts lines) = true) (hcut : isCut lines = true) :
    ending executed mode lines = .error .notUtf8 := by
  rw [ending, hreads, hcut]
  rfl

theorem ending_ok {executed : Nat} {mode : Mode} {lines : List (List UInt8)}
    (h : (readsOn mode (texts lines) && isCut lines) = false) :
    ending executed mode lines =
      .ok (executed + (commands (script mode (texts lines))).length) := by
  rw [ending, h]
  rfl

theorem ending_congr {executed executed' : Nat} {mode : Mode} {lines lines' : List (List UInt8)}
    (hreads : readsOn mode (texts lines) = readsOn mode (texts lines'))
    (hcut : isCut lines = isCut lines')
    (hcount : executed + (commands (script mode (texts lines))).length =
      executed' + (commands (script mode (texts lines'))).length) :
    ending executed mode lines = ending executed' mode lines' := by
  rw [ending, ending, hreads, hcut, hcount]

section Ending

variable {line answerLine : List UInt8} {command answer : List Char}

theorem ending_batch_blank (hline : decode? line = some command)
    (hblank : isBlankLine command = true) (executed : Nat) (rest : List (List UInt8)) :
    ending executed .batch (line :: rest) = ending executed .batch rest := by
  refine ending_congr rfl (isCut_cons_some hline rest) ?_
  rw [texts_cons_some hline, script_batch_blank hblank]

theorem ending_batch_command (hline : decode? line = some command)
    (hblank : isBlankLine command = false) (executed : Nat) (rest : List (List UInt8)) :
    ending executed .batch (line :: rest) = ending (executed + 1) .batch rest := by
  refine ending_congr rfl (isCut_cons_some hline rest) ?_
  rw [texts_cons_some hline, script_batch_command hblank, commands_command, List.length_cons]
  omega

/-- A turn that goes on counts its command and leaves the ending to the lines behind it. -/
theorem ending_interactive_affirmed (hline : decode? line = some command)
    (hanswer : decode? answerLine = some answer) (haffirms : affirms answer = true)
    (executed : Nat) (rest : List (List UInt8)) :
    ending executed .interactive (line :: answerLine :: rest) =
      ending (executed + 1) .interactive rest := by
  refine ending_congr ?_ ?_ ?_
  · rw [texts_cons_some hline, texts_cons_some hanswer, readsOn_interactive_cons, haffirms,
      Bool.true_and]
  · rw [isCut_cons_some hline, isCut_cons_some hanswer]
  · rw [texts_cons_some hline, texts_cons_some hanswer, script_interactive_affirmed haffirms,
      commands_append, List.length_append, ← Nat.add_assoc]
    rfl

/-- A turn that ends the session ends it well, whatever the lines behind it are. -/
theorem ending_interactive_refused (hline : decode? line = some command)
    (hanswer : decode? answerLine = some answer) (haffirms : affirms answer = false)
    (executed : Nat) (rest : List (List UInt8)) :
    ending executed .interactive (line :: answerLine :: rest) = .ok (executed + 1) := by
  have htexts : texts (line :: answerLine :: rest) = command :: answer :: texts rest := by
    rw [texts_cons_some hline, texts_cons_some hanswer]
  rw [ending_ok, htexts, script_interactive_refused haffirms]
  · rfl
  · rw [htexts, readsOn_interactive_cons, haffirms, Bool.false_and, Bool.false_and]

end Ending

variable {σ : Type} [DocumentStore σ]

/-- Play a script and end as told, unless the room of the output does not last. -/
def play (outcome : Except Fault Nat) (room : Option Nat) (engine : Engine σ) :
    List Step → Result σ
  | [] => ⟨outcome, [], engine⟩
  | .ask question :: steps =>
    writeLine room question engine fun room => play outcome room engine steps
  | .command line :: steps =>
    let after := (engine.execute line).2
    writeLine room (engine.execute line).1.text after fun room => play outcome room after steps

/-- A batch session plays its script. -/
theorem batch_eq_play (executed : Nat) (room : Option Nat) (engine : Engine σ)
    (lines : List (List UInt8)) :
    batch executed room engine lines =
      play (ending executed .batch lines) room engine (script .batch (texts lines)) := by
  induction lines generalizing executed room engine with
  | nil => rfl
  | cons line rest ih =>
    cases hline : decode? line with
    | none =>
      rw [ending_error rfl (isCut_cons_none hline rest), texts_cons_none hline, batch, hline]
      rfl
    | some command =>
      rw [texts_cons_some hline]
      cases hblank : isBlankLine command with
      | true =>
        rw [ending_batch_blank hline hblank, script_batch_blank hblank, ← ih]
        simp only [batch, hline, hblank, if_true]
      | false =>
        rw [ending_batch_command hline hblank, script_batch_command hblank]
        simp only [batch, hline, hblank, play, ih, Bool.false_eq_true, if_false]

/-- An interactive session plays its script. It has asked for a line before it finds out that the
line is not UTF-8. -/
theorem interactive_eq_play (executed : Nat) (room : Option Nat) (engine : Engine σ) :
    ∀ lines : List (List UInt8), interactive executed room engine lines =
      play (ending executed .interactive lines) room engine (script .interactive (texts lines))
  | [] => rfl
  | line :: rest => by
    cases hline : decode? line with
    | none =>
      have hreads : readsOn .interactive (texts (line :: rest)) = true := by
        rw [texts_cons_none hline]
        rfl
      rw [ending_error hreads (isCut_cons_none hline rest), texts_cons_none hline]
      simp only [interactive, hline, script_interactive_nil, play]
    | some command =>
      rw [texts_cons_some hline]
      cases rest with
      | nil =>
        rw [ending_ok (by simp [isCut, hline]), texts_cons_some hline]
        simp only [texts, interactive, hline, script_interactive_singleton, Turn.steps, play]
        rfl
      | cons answerLine rest =>
        cases hanswer : decode? answerLine with
        | none =>
          have hreads : readsOn .interactive (texts (line :: answerLine :: rest)) = true := by
            rw [texts_cons_some hline, texts_cons_none hanswer]
            rfl
          have hcut : isCut (line :: answerLine :: rest) = true := by
            rw [isCut_cons_some hline, isCut_cons_none hanswer]
          rw [ending_error hreads hcut, texts_cons_none hanswer]
          simp only [interactive, hline, hanswer, script_interactive_singleton, Turn.steps, play]
        | some answer =>
          rw [texts_cons_some hanswer]
          cases haffirms : affirms answer with
          | true =>
            have hrest (room : Option Nat) (engine : Engine σ) :=
              interactive_eq_play (executed + 1) room engine rest
            rw [ending_interactive_affirmed hline hanswer haffirms,
              script_interactive_affirmed haffirms]
            simp only [interactive, hline, hanswer, haffirms, if_true, Turn.steps,
              List.cons_append, List.nil_append, play, hrest]
          | false =>
            rw [ending_interactive_refused hline hanswer haffirms,
              script_interactive_refused haffirms]
            simp only [interactive, hline, hanswer, haffirms, Bool.false_eq_true, if_false,
              Turn.steps, play]

/-- A session plays the script of the texts that it can read. -/
theorem run_eq_play (mode : Mode) (room : Option Nat) (engine : Engine σ) (input : List UInt8) :
    run mode room engine input =
      play (ending 0 mode (lines input)) room engine (scriptOf mode input) := by
  cases mode with
  | batch => exact batch_eq_play 0 room engine (lines input)
  | interactive => exact interactive_eq_play 0 room engine (lines input)

end TokenSearch.Session
