import TokenSearch.Json.Lexeme

/-!
# The spelling of JSON numbers

A number has a whole part, which begins with a zero only if it is nothing but a zero, and it may
have a fraction and an exponent. What is read at the front of a text is spelled so, and a number
that is spelled so is read as a whole, provided that what stands behind it could not continue it.
-/

namespace TokenSearch.Json

open Text (Scanned)

/-- A run of digits. -/
def AreDigits (digits : List Char) : Prop := digits ≠ [] ∧ ∀ c ∈ digits, c.isDigit = true

/-- The text of a fraction, with its digits. -/
inductive IsFraction : Scanned → List Char → Prop
  | absent : IsFraction [] []
  | present {digits : List Char} (h : AreDigits digits) :
      IsFraction (some '.' :: digits.map some) digits

/-- The text of the sign of an exponent, and whether it is a minus sign. -/
inductive IsSign : List Char → Bool → Prop
  | absent : IsSign [] false
  | plus : IsSign ['+'] false
  | minus : IsSign ['-'] true

/-- The value of the digits of an exponent behind its sign. -/
def exponentOf (negative : Bool) (digits : List Char) : Int :=
  if negative then -(Nat.ofDigitChars 10 digits 0 : Int) else Nat.ofDigitChars 10 digits 0

/-- The text of an exponent, with its value. -/
inductive IsExponent : Scanned → Option Int → Prop
  | absent : IsExponent [] none
  | present {mark : Char} {sign digits : List Char} {negative : Bool}
      (hmark : mark = 'e' ∨ mark = 'E') (hsign : IsSign sign negative) (h : AreDigits digits) :
      IsExponent (some mark :: (sign.map some ++ digits.map some))
        (some (exponentOf negative digits))

/-- The text of a number behind its sign. -/
inductive IsMagnitude (negative : Bool) : Scanned → Numeral → Prop
  | mk {whole fraction : List Char} {exponent : Option Int} {f e : Scanned}
      (hwhole : AreDigits whole) (hzero : whole.head? = some '0' → whole = ['0'])
      (hfraction : IsFraction f fraction) (hexponent : IsExponent e exponent) :
      IsMagnitude negative (whole.map some ++ (f ++ e)) ⟨negative, whole, fraction, exponent⟩

section Reading

theorem leadingDigits_append_drop (cs : Scanned) :
    (leadingDigits cs).map some ++ cs.drop (leadingDigits cs).length = cs := by
  fun_induction leadingDigits cs with
  | case1 c rest hc ih => rw [List.map_cons, List.length_cons, List.drop_succ_cons,
      List.cons_append, ih]
  | case2 => rfl
  | case3 => rfl

theorem isDigit_of_mem_leadingDigits {cs : Scanned} :
    ∀ c ∈ leadingDigits cs, c.isDigit = true := by
  fun_induction leadingDigits cs with
  | case1 c rest hc ih => exact List.forall_mem_cons.mpr ⟨hc, ih⟩
  | case2 => exact nofun
  | case3 => exact nofun

/-- The digits that were read are the ones at the front. -/
theorem exists_of_leadingDigits {cs : Scanned} (h : leadingDigits cs ≠ []) :
    AreDigits (leadingDigits cs) ∧
      cs = (leadingDigits cs).map some ++ cs.drop (leadingDigits cs).length :=
  ⟨⟨h, isDigit_of_mem_leadingDigits⟩, (leadingDigits_append_drop cs).symm⟩

theorem isFraction_of_readFraction {cs rest : Scanned} {digits : List Char}
    (h : readFraction cs = some (digits, rest)) :
    ∃ text, cs = text ++ rest ∧ IsFraction text digits := by
  unfold readFraction at h
  split at h
  · rename_i tail
    split at h
    · cases h
    · rename_i hdigits
      cases h
      obtain ⟨hrun, htail⟩ := exists_of_leadingDigits hdigits
      exact ⟨_, congrArg (some '.' :: ·) htail, .present hrun⟩
  · cases h
    exact ⟨[], rfl, .absent⟩

theorem exists_of_readExponentDigits {negative : Bool} {cs rest : Scanned} {n : Option Int}
    (h : readExponentDigits negative cs = some (n, rest)) :
    ∃ digits, AreDigits digits ∧ cs = digits.map some ++ rest ∧
      n = some (exponentOf negative digits) := by
  unfold readExponentDigits at h
  split at h
  · cases h
  · rename_i hdigits
    cases h
    obtain ⟨hrun, hcs⟩ := exists_of_leadingDigits hdigits
    exact ⟨_, hrun, hcs, rfl⟩

theorem isExponent_of_readExponent {cs rest : Scanned} {n : Option Int}
    (h : readExponent cs = some (n, rest)) : ∃ text, cs = text ++ rest ∧ IsExponent text n := by
  unfold readExponent at h
  split at h
  · rename_i mark tail
    split at h
    · rename_i hmark
      split at h
      · obtain ⟨digits, hrun, rfl, rfl⟩ := exists_of_readExponentDigits h
        exact ⟨_, rfl, .present hmark .plus hrun⟩
      · obtain ⟨digits, hrun, rfl, rfl⟩ := exists_of_readExponentDigits h
        exact ⟨_, rfl, .present hmark .minus hrun⟩
      · obtain ⟨digits, hrun, rfl, rfl⟩ := exists_of_readExponentDigits h
        exact ⟨_, rfl, .present hmark .absent hrun⟩
    · cases h
      exact ⟨[], rfl, .absent⟩
  · cases h
    exact ⟨[], rfl, .absent⟩

theorem whole_of_wholeDigits {cs : Scanned} (h : wholeDigits cs ≠ []) :
    AreDigits (wholeDigits cs) ∧ ((wholeDigits cs).head? = some '0' → wholeDigits cs = ['0']) ∧
      cs = (wholeDigits cs).map some ++ cs.drop (wholeDigits cs).length := by
  have hfront := leadingDigits_append_drop cs
  unfold wholeDigits at h ⊢
  split at h
  · rename_i tail hzero
    rw [hzero] at hfront
    refine ⟨⟨h, List.forall_mem_singleton.mpr rfl⟩, fun _ => rfl, ?_⟩
    rw [← hfront]
    rfl
  · rename_i hzero
    obtain ⟨hrun, hcs⟩ := exists_of_leadingDigits h
    refine ⟨hrun, fun hhead => ?_, hcs⟩
    obtain ⟨tail, htail⟩ := List.head?_eq_some_iff.mp hhead
    exact absurd htail (hzero tail)

/-- A number that was read stands at the front. -/
theorem isMagnitude_of_readMagnitude {negative : Bool} {cs rest : Scanned} {lexeme : Lexeme}
    (h : readMagnitude negative cs = some (lexeme, rest)) :
    ∃ text n, cs = text ++ rest ∧ lexeme = .atom (.number n) ∧ IsMagnitude negative text n := by
  simp only [readMagnitude] at h
  split at h
  · cases h
  · rename_i hne
    obtain ⟨hrun, hzero, hcs⟩ := whole_of_wholeDigits hne
    split at h
    · cases h
    · rename_i fraction behind hread
      obtain ⟨f, hf, hfraction⟩ := isFraction_of_readFraction hread
      split at h
      · cases h
      · rename_i exponent behind' hread'
        cases h
        obtain ⟨e, rfl, hexponent⟩ := isExponent_of_readExponent hread'
        refine ⟨_, _, ?_, rfl, .mk hrun hzero hfraction hexponent⟩
        rw [List.append_assoc, List.append_assoc, ← hf, ← hcs]

end Reading

section Spelling

/-- No character behind a number could continue it. -/
def EndsNumber (rest : Scanned) : Prop :=
  ∀ c, rest.head? = some (some c) → c.isDigit = false ∧ c ≠ '.' ∧ c ≠ 'e' ∧ c ≠ 'E'

theorem endsNumber_nil : EndsNumber [] := nofun

/-- A run of digits is taken as a whole. -/
theorem leadingDigits_append {digits : List Char} (hdigits : ∀ c ∈ digits, c.isDigit = true)
    {rest : Scanned} (hrest : ∀ c, rest.head? = some (some c) → c.isDigit = false) :
    leadingDigits (digits.map some ++ rest) = digits := by
  induction digits with
  | nil =>
    match rest with
    | [] => rfl
    | none :: _ => rfl
    | some c :: tail => rw [List.map_nil, List.nil_append, leadingDigits, hrest c rfl]; rfl
  | cons c digits ih =>
    obtain ⟨hc, hdigits⟩ := List.forall_mem_cons.mp hdigits
    rw [List.map_cons, List.cons_append, leadingDigits, if_pos hc, ih hdigits]

theorem drop_length_append (digits : List Char) (rest : Scanned) :
    (digits.map some ++ rest).drop digits.length = rest :=
  List.drop_left' (List.length_map some)

/-- An exponent, or what stands behind it, continues no run of digits and is no point. -/
theorem IsExponent.head? {e rest : Scanned} {exponent : Option Int} (h : IsExponent e exponent)
    (hrest : EndsNumber rest) :
    ∀ c, (e ++ rest).head? = some (some c) → c.isDigit = false ∧ c ≠ '.' := by
  cases h with
  | absent =>
    intro c hc
    exact ⟨(hrest c hc).1, (hrest c hc).2.1⟩
  | present hmark =>
    rintro c ⟨⟩
    rcases hmark with rfl | rfl <;> decide

theorem IsFraction.head? {f e rest : Scanned} {fraction : List Char} {exponent : Option Int}
    (h : IsFraction f fraction) (hexponent : IsExponent e exponent) (hrest : EndsNumber rest) :
    ∀ c, (f ++ (e ++ rest)).head? = some (some c) → c.isDigit = false := by
  cases h with
  | absent => exact fun c hc => (hexponent.head? hrest c hc).1
  | present =>
    rintro c ⟨⟩
    rfl

theorem IsFraction.readFraction_eq {f rest : Scanned} {fraction : List Char}
    (h : IsFraction f fraction)
    (hrest : ∀ c, rest.head? = some (some c) → c.isDigit = false ∧ c ≠ '.') :
    readFraction (f ++ rest) = some (fraction, rest) := by
  cases h with
  | absent =>
    rw [List.nil_append]
    unfold readFraction
    split
    · exact absurd rfl (hrest '.' rfl).2
    · rfl
  | present hrun =>
    have hdigits := leadingDigits_append hrun.2 fun c hc => (hrest c hc).1
    rw [List.cons_append, readFraction, hdigits]
    split
    · exact absurd rfl hrun.1
    · rw [drop_length_append]

theorem readExponentDigits_eq (negative : Bool) {digits : List Char} (h : AreDigits digits)
    {rest : Scanned} (hrest : EndsNumber rest) :
    readExponentDigits negative (digits.map some ++ rest) =
      some (some (exponentOf negative digits), rest) := by
  have hdigits := leadingDigits_append h.2 fun c hc => (hrest c hc).1
  rw [readExponentDigits, hdigits]
  split
  · exact absurd rfl h.1
  · rw [drop_length_append]
    rfl

theorem IsExponent.readExponent_eq {e rest : Scanned} {exponent : Option Int}
    (h : IsExponent e exponent) (hrest : EndsNumber rest) :
    readExponent (e ++ rest) = some (exponent, rest) := by
  cases h with
  | absent =>
    rw [List.nil_append]
    unfold readExponent
    split
    · rename_i c tail
      obtain ⟨-, -, hlower, hupper⟩ := hrest c rfl
      rw [if_neg (not_or.mpr ⟨hlower, hupper⟩)]
    · rfl
  | @present mark sign digits negative hmark hsign hrun =>
    rw [List.cons_append, List.append_assoc]
    unfold readExponent
    simp only [if_pos hmark]
    cases hsign with
    | plus => exact readExponentDigits_eq false hrun hrest
    | minus => exact readExponentDigits_eq true hrun hrest
    | absent =>
      obtain ⟨c, tail, rfl⟩ := List.exists_cons_of_ne_nil hrun.1
      have hc := hrun.2 c List.mem_cons_self
      have hread := readExponentDigits_eq false hrun hrest
      rw [List.map_nil, List.nil_append]
      split
      · rename_i hplus
        cases hplus
        cases hc
      · rename_i hminus
        cases hminus
        cases hc
      · exact hread

/-- The whole part of a number is taken up to its end. -/
theorem wholeDigits_append {whole : List Char} (h : AreDigits whole)
    (hzero : whole.head? = some '0' → whole = ['0']) {rest : Scanned}
    (hrest : ∀ c, rest.head? = some (some c) → c.isDigit = false) :
    wholeDigits (whole.map some ++ rest) = whole := by
  rw [wholeDigits, leadingDigits_append h.2 hrest]
  split
  · exact (hzero rfl).symm
  · rfl

/-- A number is read up to its end. -/
theorem IsMagnitude.readMagnitude_eq {negative : Bool} {text rest : Scanned} {n : Numeral}
    (h : IsMagnitude negative text n) (hrest : EndsNumber rest) :
    readMagnitude negative (text ++ rest) = some (.atom (.number n), rest) := by
  obtain ⟨hwhole, hzero, hfraction, hexponent⟩ := h
  have hdigits := wholeDigits_append hwhole hzero (hfraction.head? hexponent hrest)
  have hread := hfraction.readFraction_eq (hexponent.head? hrest)
  rw [List.append_assoc, List.append_assoc]
  simp only [readMagnitude, hdigits, if_neg hwhole.1, drop_length_append, hread,
    hexponent.readExponent_eq hrest]

/-- A number without a sign begins with a digit. -/
theorem IsMagnitude.exists_cons {negative : Bool} {text : Scanned} {n : Numeral}
    (h : IsMagnitude negative text n) : ∃ c tail, text = some c :: tail ∧ c.isDigit = true := by
  obtain ⟨hwhole, -, -, -⟩ := h
  obtain ⟨c, tail, rfl⟩ := List.exists_cons_of_ne_nil hwhole.1
  exact ⟨c, _, rfl, hwhole.2 c List.mem_cons_self⟩

end Spelling

end TokenSearch.Json
