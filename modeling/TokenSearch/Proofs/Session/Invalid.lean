import TokenSearch.Proofs.Session.Transcript

/-!
# Sessions that reach a line that is not UTF-8

A line is checked when it is read. So a session with an unlimited output fails just when it
reaches a line that is not UTF-8, and has done by then what it does on the bytes before this
line. What stands behind the point where a session stops makes no difference.
-/

namespace TokenSearch.Session

open Text.Utf8

/-- A session on some bytes and more reads on behind them: all their lines are UTF-8, and in an
interactive session every second line is an answer that asks to go on. -/
structure Reaches (mode : Mode) (start : List UInt8) : Prop where
  utf8 (line : List UInt8) (h : line ∈ lines start) : decode? line ≠ none
  affirmed (hmode : mode = .interactive) (k : Nat) (line : List UInt8) (answer : List Char)
    (hline : (lines start)[2 * k + 1]? = some line) (hanswer : decode? line = some answer) :
    affirms answer = true

theorem isCut_eq_false_iff {lines : List (List UInt8)} :
    isCut lines = false ↔ ∀ line ∈ lines, decode? line ≠ none := by
  simp only [isCut, List.any_eq_false, Option.isNone_iff_eq_none, ne_eq]

/-- An interactive session reads on when every second line asks to go on. -/
theorem readsOn_interactive_iff :
    ∀ {lines : List (List UInt8)}, isCut lines = false →
      (readsOn .interactive (texts lines) = true ↔
        ∀ k line answer, lines[2 * k + 1]? = some line → decode? line = some answer →
          affirms answer = true)
  | [], _ => by simp [texts, readsOn, turns]
  | [line], h => by
    cases hline : decode? line with
    | none =>
      rw [isCut_cons_none hline] at h
      cases h
    | some command =>
      rw [texts_cons_some hline]
      simp [texts, readsOn, turns, Turn.refuses]
  | line :: answerLine :: rest, h => by
    cases hline : decode? line with
    | none =>
      rw [isCut_cons_none hline] at h
      cases h
    | some command =>
      rw [isCut_cons_some hline] at h
      cases hanswer : decode? answerLine with
      | none =>
        rw [isCut_cons_none hanswer] at h
        cases h
      | some answer =>
        rw [isCut_cons_some hanswer] at h
        rw [texts_cons_some hline, texts_cons_some hanswer, readsOn_interactive_cons,
          Bool.and_eq_true, readsOn_interactive_iff h]
        constructor
        · rintro ⟨haffirms, hrest⟩ k found answer' hfound hanswer'
          cases k with
          | zero =>
            obtain rfl : answerLine = found := Option.some.inj hfound
            obtain rfl : answer = answer' := Option.some.inj (hanswer.symm.trans hanswer')
            exact haffirms
          | succ k => exact hrest k found answer' hfound hanswer'
        · intro hall
          exact ⟨hall 0 answerLine answer rfl hanswer, fun k => hall (k + 1)⟩

theorem reaches_iff {mode : Mode} {start : List UInt8} :
    Reaches mode start ↔
      isCut (lines start) = false ∧ readsOn mode (texts (lines start)) = true := by
  constructor
  · rintro ⟨hutf8, haffirmed⟩
    have hcut := isCut_eq_false_iff.2 hutf8
    refine ⟨hcut, ?_⟩
    cases mode with
    | batch => rfl
    | interactive => exact (readsOn_interactive_iff hcut).2 (haffirmed rfl)
  · rintro ⟨hcut, hreads⟩
    refine ⟨isCut_eq_false_iff.1 hcut, ?_⟩
    rintro rfl
    exact (readsOn_interactive_iff hcut).1 hreads

variable {σ : Type} [DocumentStore σ]

/-- What a session on an input that breaks off behind some bytes has in common with the session
on these bytes alone. -/
structure BreaksOff (mode : Mode) (engine : Engine σ) (input start : List UInt8) : Prop where
  /-- It fails, and not for want of room. -/
  outcome : (run mode none engine input).outcome = .error .notUtf8
  /-- The other one comes to its end. -/
  ended : (run mode none engine start).outcome = .ok (commands (scriptOf mode start)).length
  output : (run mode none engine input).output = (run mode none engine start).output
  /-- Both carry out the same commands. -/
  commands : commands (scriptOf mode input) = commands (scriptOf mode start)
  carriedOut : (run mode none engine input).engine =
    (engine.executeAll (Session.commands (scriptOf mode input))).2
  /-- Index and store end up the same. -/
  engine : (run mode none engine input).engine = (run mode none engine start).engine

/-- A session breaks off at a line that is not UTF-8 when it reaches it. -/
theorem breaksOff_of_reaches {mode : Mode} {input start bad : List UInt8}
    {rest : List (List UInt8)} (hlines : lines input = lines start ++ bad :: rest)
    (hreaches : Reaches mode start) (hbad : decode? bad = none) (engine : Engine σ) :
    BreaksOff mode engine input start := by
  obtain ⟨hcut, hreads⟩ := reaches_iff.1 hreaches
  have htexts : texts (lines input) = texts (lines start) := by
    rw [hlines, texts_append hcut, texts_cons_none hbad, List.append_nil]
  have hscript : scriptOf mode input = scriptOf mode start := by rw [scriptOf, scriptOf, htexts]
  have hinput : ending 0 mode (lines input) = .error .notUtf8 := by
    refine ending_error (by rw [htexts, hreads]) ?_
    rw [hlines, isCut_append, isCut_cons_none hbad, Bool.or_true]
  have hstart : ending 0 mode (lines start) = .ok (commands (scriptOf mode start)).length := by
    rw [ending_ok (by rw [hcut, Bool.and_false]), Nat.zero_add, scriptOf]
  rw [← hscript] at hstart
  constructor <;> simp only [run_none, hinput, hstart, hscript]

/-- A session that fails, with no limit to its output, has reached a line that is not UTF-8. -/
theorem exists_reaches_of_error {mode : Mode} {engine : Engine σ} {input : List UInt8}
    {fault : Fault} (h : (run mode none engine input).outcome = .error fault) :
    ∃ start bad rest, lines input = lines start ++ bad :: rest ∧ Reaches mode start ∧
      decode? bad = none := by
  rw [run_none, ending] at h
  split at h
  · rename_i hboth
    obtain ⟨hreads, hcut⟩ := Bool.and_eq_true_iff.1 hboth
    obtain ⟨before, bad, rest, hlines, hbad, hbefore⟩ := exists_first_of_isCut hcut
    have hflatten : lines before.flatten = before :=
      lines_flatten_of_append hlines (List.cons_ne_nil bad rest)
    rw [hlines, texts_append hbefore, texts_cons_none hbad, List.append_nil] at hreads
    refine ⟨before.flatten, bad, rest, by rw [hflatten, hlines], ?_, hbad⟩
    rw [reaches_iff, hflatten]
    exact ⟨hbefore, hreads⟩
  · cases h

/-- Behind whole lines after which a session does not read on, nothing makes a difference. It has
stopped at a line that is not UTF-8 or at an answer. -/
theorem run_append_of_not_reaches {mode : Mode} {start : List UInt8}
    (hstart : start.getLast? = some 10) (hreaches : ¬Reaches mode start) (room : Option Nat)
    (engine : Engine σ) (rest : List UInt8) :
    run mode room engine (start ++ rest) = run mode room engine start := by
  have hlines := lines_append hstart rest
  rw [run_eq_play, run_eq_play, scriptOf, scriptOf, hlines]
  cases hcut : isCut (lines start) with
  | true =>
    have htexts := texts_append_of_isCut hcut (lines rest)
    have hending : ending 0 mode (lines start ++ lines rest) = ending 0 mode (lines start) :=
      ending_congr (by rw [htexts]) (by rw [isCut_append, hcut, Bool.true_or]) (by rw [htexts])
    rw [hending, htexts]
  | false =>
    have hreads : readsOn mode (texts (lines start)) = false := by
      rw [← Bool.not_eq_true]
      exact fun h => hreaches (reaches_iff.2 ⟨hcut, h⟩)
    have htexts := texts_append hcut (lines rest)
    obtain ⟨hscript, hfurther⟩ := script_append_of_stopped hreads (texts (lines rest))
    rw [← htexts] at hscript hfurther
    rw [ending_ok (by rw [hfurther, Bool.false_and]), ending_ok (by rw [hreads, Bool.false_and]),
      hscript]

/-- A session with an unlimited output fails if and only if it reaches a line that is not UTF-8,
as a command or as an answer. Output, commands, index and store are then those of the session on
the bytes before this line. Nothing that a session does not reach has an effect: neither what
stands behind such a line nor what stands behind an answer that ends the session. -/
theorem run_notUtf8 (mode : Mode) (engine : Engine σ) (input : List UInt8) :
    ((∃ fault, (run mode none engine input).outcome = .error fault) ↔
      ∃ start bad rest, lines input = lines start ++ bad :: rest ∧ Reaches mode start ∧
        decode? bad = none) ∧
    (∀ start bad rest, lines input = lines start ++ bad :: rest → Reaches mode start →
      decode? bad = none → BreaksOff mode engine input start) ∧
    ∀ start rest, start.getLast? = some 10 → ¬Reaches mode start →
      run mode none engine (start ++ rest) = run mode none engine start := by
  refine ⟨⟨?_, ?_⟩, ?_, ?_⟩
  · rintro ⟨fault, hfault⟩
    exact exists_reaches_of_error hfault
  · rintro ⟨start, bad, rest, hlines, hreaches, hbad⟩
    exact ⟨.notUtf8, (breaksOff_of_reaches hlines hreaches hbad engine).outcome⟩
  · intro start bad rest hlines hreaches hbad
    exact breaksOff_of_reaches hlines hreaches hbad engine
  · intro start rest hstart hreaches
    exact run_append_of_not_reaches hstart hreaches none engine rest

/-- An interactive session that goes on once and then reads a byte that begins no character. -/
theorem run_notUtf8_second_command :
    let engine := Engine.mk .empty (MemoryStore.mk #[])
    let start := encode "index 1 cat\n y \n".toList
    let input := start ++ 0xFF :: 10 :: encode "query cat\n".toList
    Reaches .interactive start ∧ BreaksOff .interactive engine input start := by
  intro engine start input
  have hreaches : Reaches .interactive start := reaches_iff.2 (by decide +kernel)
  have hlines : lines input = lines start ++ [0xFF, 10] :: lines (encode "query cat\n".toList) := by
    decide +kernel
  exact ⟨hreaches, (run_notUtf8 .interactive engine input).2.1 start [0xFF, 10] _ hlines hreaches
    (by decide +kernel)⟩

end TokenSearch.Session
