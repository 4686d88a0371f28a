import TokenSearch.Json.Read
import TokenSearch.Proofs.Json.Spelling

/-!
# The grammar of JSON texts

Lexemes are a phrase of a value when they write it by the grammar of JSON, and a text is a JSON text
of a value when it spells such a phrase. The reader takes a phrase for its value whatever stands
behind it, and what it has taken is a phrase: the lexemes that were read so far have opened the
containers on the stack, and each further lexeme keeps it so.
-/

namespace TokenSearch.Json

open Text (Scanned)

/-- A member of an object: its name, and the lexemes of its value with the value. -/
structure Property where
  name : Scanned
  spelled : List Lexeme
  value : Json

namespace Property

/-- The lexemes of a member. -/
def phrase (property : Property) : List Lexeme :=
  .string property.name :: .colon :: property.spelled

/-- The name and the value of a member. -/
def pair (property : Property) : Scanned × Json := (property.name, property.value)

end Property

/-- Lexemes write a value by the grammar. -/
inductive Phrase : List Lexeme → Json → Prop
  | atom (value : Json) : Phrase [.atom value] value
  | string (s : Scanned) : Phrase [.string s] (.string s)
  | array {items : List (List Lexeme × Json)} (hitems : ∀ item ∈ items, Phrase item.1 item.2) :
    Phrase (.openArray :: ([.comma].intercalate (items.map (·.1)) ++ [.closeArray]))
      (.array (items.map (·.2)))
  | object {properties : List Property}
    (hproperties : ∀ property ∈ properties, Phrase property.spelled property.value) :
    Phrase
      (.openObject :: ([.comma].intercalate (properties.map Property.phrase) ++ [.closeObject]))
      (.object (properties.map Property.pair))

/-- A text is a JSON text of a value, with spaces anywhere between its parts and around it. -/
def IsText (text : Scanned) (value : Json) : Prop :=
  ∃ spelled, Spells text spelled ∧ Phrase spelled value

section Separation

/-- Lexemes can be spelled in a text, and without spaces between them. -/
structure Separable (spelled : List Lexeme) : Prop where
  wellFormed : .malformed ∉ spelled
  isChain : spelled.IsChain Apart

theorem Separable.nil : Separable [] := ⟨nofun, .nil⟩

/-- A sign can stand between any lexemes. -/
theorem Separable.append_sign {before after : List Lexeme} (h : Separable before)
    (hafter : Separable after) {sign : Lexeme} (hsign : sign ∈ signs.map Prod.snd) :
    Separable (before ++ sign :: after) := by
  have hall : ∀ sign ∈ signs.map Prod.snd, sign ≠ .malformed ∧ ∀ v, sign ≠ .atom v := by
    simp [signs]
  obtain ⟨hwellFormed, hatom⟩ := hall sign hsign
  refine ⟨?_, List.isChain_append.mpr ⟨h.isChain, List.isChain_cons.mpr ⟨?_, hafter.isChain⟩, ?_⟩⟩
  · rw [List.mem_append, List.mem_cons]
    exact not_or.mpr ⟨h.wellFormed, not_or.mpr ⟨hwellFormed.symm, hafter.wellFormed⟩⟩
  · exact fun next _ n v hn => absurd hn (hatom _)
  · rintro lexeme - next hnext n v -
    rw [List.head?_cons, Option.mem_some_iff] at hnext
    exact hnext ▸ hatom v

theorem Separable.intercalate {parts : List (List Lexeme)} (h : ∀ part ∈ parts, Separable part) :
    Separable ([.comma].intercalate parts) := by
  induction parts with
  | nil => exact .nil
  | cons part parts ih =>
    obtain ⟨hpart, hparts⟩ := List.forall_mem_cons.mp h
    cases parts with
    | nil => rwa [List.intercalate_singleton]
    | cons second parts =>
      have hcomma : .comma ∈ signs.map Prod.snd := by simp [signs]
      rw [List.intercalate_cons_cons, List.append_assoc]
      exact hpart.append_sign (ih hparts) hcomma

/-- The lexemes of a value can be spelled in a text. -/
theorem Phrase.separable {spelled : List Lexeme} {value : Json} (h : Phrase spelled value) :
    Separable spelled := by
  induction h with
  | atom value => exact ⟨by simp, .singleton _⟩
  | string s => exact ⟨by simp, .singleton _⟩
  | array _ ih =>
    have hitems := Separable.intercalate (List.forall_mem_map.mpr ih)
    have hclosed := hitems.append_sign .nil (show .closeArray ∈ _ by simp [signs])
    exact Separable.nil.append_sign hclosed (by simp [signs])
  | @object properties _ ih =>
    have hphrase : ∀ property ∈ properties, Separable property.phrase := by
      intro property hproperty
      have hname : Separable [.string property.name] := ⟨by simp, .singleton _⟩
      exact hname.append_sign (ih property hproperty) (by simp [signs])
    have hproperties := Separable.intercalate (List.forall_mem_map.mpr hphrase)
    have hclosed := hproperties.append_sign .nil (show .closeObject ∈ _ by simp [signs])
    exact Separable.nil.append_sign hclosed (by simp [signs])

/-- The last lexeme of a value is a number only if the value is this number. -/
theorem Phrase.eq_number_of_getLast? {spelled : List Lexeme} {value : Json}
    (h : Phrase spelled value) {n : Numeral} (hlast : spelled.getLast? = some (.atom (.number n))) :
    value = .number n := by
  cases h with
  | atom => simpa using hlast
  | string | array | object => simp [List.getLast?_cons] at hlast

end Separation

section Reading

/-- Parts behind a first one, each behind a comma. -/
def further (parts : List (List Lexeme)) : List Lexeme := parts.flatMap (.comma :: ·)

/-- Parts with commas between them are the first part and then the further ones. -/
theorem intercalate_cons (first : List Lexeme) (parts : List (List Lexeme)) :
    [.comma].intercalate (first :: parts) = first ++ further parts := by
  induction parts generalizing first with
  | nil => simp [further]
  | cons second parts ih =>
    rw [List.intercalate_cons_cons, ih, List.append_assoc]
    rfl

/-- Whatever stands behind them, lexemes are read as a value. -/
structure ReadsAs (spelled : List Lexeme) (value : Json) : Prop where
  /-- The lexemes are not taken for the end of an empty array. -/
  notClose (rest behind : List Lexeme) : spelled ++ rest ≠ .closeArray :: behind
  read (frames : List Frame) (rest : List Lexeme) :
    readFrom frames .value (spelled ++ rest) = readFrom frames (.complete value) rest

/-- The further items of an array are read up to its end. -/
theorem readFrom_items {items : List (List Lexeme × Json)}
    (hitems : ∀ item ∈ items, ReadsAs item.1 item.2) (frames : List Frame) (before : List Json)
    (value : Json) (rest : List Lexeme) :
    readFrom (.array before :: frames) (.complete value)
        (further (items.map (·.1)) ++ .closeArray :: rest) =
      readFrom frames (.complete (.array ((value :: before).reverse ++ items.map (·.2)))) rest := by
  induction items generalizing before value with
  | nil => simp [further, readFrom]
  | cons item items ih =>
    obtain ⟨hitem, hitems⟩ := List.forall_mem_cons.mp hitems
    rw [List.map_cons, further, List.flatMap_cons, ← further, List.cons_append, List.cons_append,
      readFrom, List.append_assoc, hitem.read, ih hitems]
    simp

/-- The further members of an object are read up to its end. -/
theorem readFrom_properties {properties : List Property}
    (hproperties : ∀ property ∈ properties, ReadsAs property.spelled property.value)
    (frames : List Frame) (before : List (Scanned × Json)) (name : Scanned) (value : Json)
    (rest : List Lexeme) :
    readFrom (.object before name :: frames) (.complete value)
        (further (properties.map Property.phrase) ++ .closeObject :: rest) =
      readFrom frames
        (.complete (.object (((name, value) :: before).reverse ++ properties.map Property.pair)))
        rest := by
  induction properties generalizing before name value with
  | nil => simp [further, readFrom]
  | cons property properties ih =>
    obtain ⟨hproperty, hproperties⟩ := List.forall_mem_cons.mp hproperties
    rw [List.map_cons, further, List.flatMap_cons, ← further, Property.phrase]
    simp only [List.cons_append, List.append_assoc]
    rw [readFrom, hproperty.read, ih hproperties]
    simp [Property.pair]

/-- A phrase is read as its value. The reader looks for the end of an empty list first, and no value
begins with it. -/
theorem Phrase.readsAs {spelled : List Lexeme} {value : Json} (h : Phrase spelled value) :
    ReadsAs spelled value := by
  induction h with
  | atom => exact ⟨by simp, by simp [readFrom]⟩
  | string => exact ⟨by simp, by simp [readFrom]⟩
  | @array items _ ih =>
    refine ⟨by simp, fun frames rest => ?_⟩
    cases items with
    | nil => simp [readFrom]
    | cons item items =>
      obtain ⟨hitem, hitems⟩ := List.forall_mem_cons.mp ih
      rw [List.map_cons, intercalate_cons, List.cons_append, List.append_assoc, List.append_assoc,
        readFrom]
      · exact (hitem.read _ _).trans (readFrom_items hitems frames [] item.2 rest)
      · exact hitem.notClose _
  | @object properties _ ih =>
    refine ⟨by simp, fun frames rest => ?_⟩
    cases properties with
    | nil => simp [readFrom]
    | cons property properties =>
      obtain ⟨hproperty, hproperties⟩ := List.forall_mem_cons.mp ih
      rw [List.map_cons, intercalate_cons, Property.phrase]
      simp only [List.cons_append, List.append_assoc]
      rw [readFrom]
      exact (hproperty.read _ _).trans
        (readFrom_properties hproperties frames [] property.name property.value rest)

end Reading

section Taking

/-- Lexemes open the containers of a stack, and a value has to stand behind them. -/
inductive Opens : List Lexeme → List Frame → Prop
  | nil : Opens [] []
  | array {before : List Lexeme} {frames : List Frame} {items : List (List Lexeme × Json)}
    (h : Opens before frames) (hitems : ∀ item ∈ items, Phrase item.1 item.2) :
    Opens (before ++ .openArray :: items.flatMap fun item => item.1 ++ [.comma])
      (.array (items.map (·.2)).reverse :: frames)
  | object {before : List Lexeme} {frames : List Frame} {properties : List Property}
    {name : Scanned} (h : Opens before frames)
    (hproperties : ∀ property ∈ properties, Phrase property.spelled property.value) :
    Opens (before ++ .openObject :: (properties.flatMap fun property =>
        property.phrase ++ [.comma]) ++ [.string name, .colon])
      (.object (properties.map Property.pair).reverse name :: frames)

/-- Lexemes lead the reader to a stack and a phase: they open the containers of the stack, and are
followed by the phrase of a value if one is complete. -/
inductive LeadsTo : List Lexeme → List Frame → Phase → Prop
  | value {before : List Lexeme} {frames : List Frame} (h : Opens before frames) :
    LeadsTo before frames .value
  | complete {before spelled : List Lexeme} {frames : List Frame} {value : Json}
    (h : Opens before frames) (hphrase : Phrase spelled value) :
    LeadsTo (before ++ spelled) frames (.complete value)

/-- Parts with commas between them are the last part and in front of it the others. -/
theorem intercalate_append_singleton (parts : List (List Lexeme)) (last : List Lexeme) :
    [.comma].intercalate (parts ++ [last]) = (parts.flatMap (· ++ [.comma])) ++ last := by
  induction parts with
  | nil => simp
  | cons part parts ih =>
    rw [List.cons_append, List.flatMap_cons, List.append_assoc, ← ih]
    cases parts <;> simp [List.intercalate_cons_cons]

namespace LeadsTo

variable {before : List Lexeme} {frames : List Frame} {value : Json}

theorem atom (h : LeadsTo before frames .value) (value : Json) :
    LeadsTo (before ++ [.atom value]) frames (.complete value) := by
  cases h with
  | value h => exact .complete h (.atom value)

theorem string (h : LeadsTo before frames .value) (s : Scanned) :
    LeadsTo (before ++ [.string s]) frames (.complete (.string s)) := by
  cases h with
  | value h => exact .complete h (.string s)

theorem emptyArray (h : LeadsTo before frames .value) :
    LeadsTo (before ++ [.openArray, .closeArray]) frames (.complete (.array [])) := by
  cases h with
  | value h => exact .complete h (@Phrase.array [] nofun)

theorem emptyObject (h : LeadsTo before frames .value) :
    LeadsTo (before ++ [.openObject, .closeObject]) frames (.complete (.object [])) := by
  cases h with
  | value h => exact .complete h (@Phrase.object [] nofun)

theorem openArray (h : LeadsTo before frames .value) :
    LeadsTo (before ++ [.openArray]) (.array [] :: frames) .value := by
  cases h with
  | value h => exact .value (@Opens.array _ _ [] h nofun)

theorem openObject (h : LeadsTo before frames .value) (name : Scanned) :
    LeadsTo (before ++ [.openObject, .string name, .colon]) (.object [] name :: frames) .value := by
  cases h with
  | value h => simpa using LeadsTo.value (@Opens.object _ _ [] name h nofun)

theorem nextItem {items : List Json}
    (h : LeadsTo before (.array items :: frames) (.complete value)) :
    LeadsTo (before ++ [.comma]) (.array (value :: items) :: frames) .value := by
  cases h with
  | @complete _ spelled _ _ h hphrase =>
    cases h with
    | @array before _ items h hitems =>
      have hall : ∀ item ∈ items ++ [(spelled, value)], Phrase item.1 item.2 :=
        List.forall_mem_append.mpr ⟨hitems, by simpa using hphrase⟩
      simpa using LeadsTo.value (.array h hall)

theorem lastItem {items : List Json}
    (h : LeadsTo before (.array items :: frames) (.complete value)) :
    LeadsTo (before ++ [.closeArray]) frames (.complete (.array (value :: items).reverse)) := by
  cases h with
  | @complete _ spelled _ _ h hphrase =>
    cases h with
    | @array before _ items h hitems =>
      have hall : ∀ item ∈ items ++ [(spelled, value)], Phrase item.1 item.2 :=
        List.forall_mem_append.mpr ⟨hitems, by simpa using hphrase⟩
      have harray := Phrase.array hall
      rw [List.map_append, List.map_singleton, intercalate_append_singleton] at harray
      simpa [List.flatMap_map] using LeadsTo.complete h harray

theorem nextMember {members : List (Scanned × Json)} {name : Scanned}
    (h : LeadsTo before (.object members name :: frames) (.complete value)) (next : Scanned) :
    LeadsTo (before ++ [.comma, .string next, .colon])
      (.object ((name, value) :: members) next :: frames) .value := by
  cases h with
  | @complete _ spelled _ _ h hphrase =>
    cases h with
    | @object before _ properties _ h hproperties =>
      have hall : ∀ property ∈ properties ++ [⟨name, spelled, value⟩],
          Phrase property.spelled property.value :=
        List.forall_mem_append.mpr ⟨hproperties, by simpa using hphrase⟩
      have hnext := LeadsTo.value (@Opens.object _ _ _ next h hall)
      simpa [Property.phrase, Property.pair] using hnext

theorem lastMember {members : List (Scanned × Json)} {name : Scanned}
    (h : LeadsTo before (.object members name :: frames) (.complete value)) :
    LeadsTo (before ++ [.closeObject]) frames
      (.complete (.object ((name, value) :: members).reverse)) := by
  cases h with
  | @complete _ spelled _ _ h hphrase =>
    cases h with
    | @object before _ properties _ h hproperties =>
      have hall : ∀ property ∈ properties ++ [⟨name, spelled, value⟩],
          Phrase property.spelled property.value :=
        List.forall_mem_append.mpr ⟨hproperties, by simpa using hphrase⟩
      have hobject := Phrase.object hall
      rw [List.map_append, List.map_singleton, intercalate_append_singleton] at hobject
      simpa [List.flatMap_map, Property.phrase, Property.pair] using LeadsTo.complete h hobject

end LeadsTo

/-- What the reader takes for a value is a phrase of it: each branch of the reader is one of the
moves above, made by the lexemes that it takes. -/
theorem exists_phrase_of_readFrom {frames : List Frame} {phase : Phase}
    {before behind rest : List Lexeme} {value : Json}
    (hread : readFrom frames phase behind = some (value, rest)) (h : LeadsTo before frames phase) :
    ∃ spelled, before ++ behind = spelled ++ rest ∧ Phrase spelled value := by
  fun_induction readFrom frames phase behind generalizing before with
  | case1 =>
    cases h with
    | complete h hphrase =>
      cases h
      cases hread
      exact ⟨_, rfl, hphrase⟩
  | case2 items frames v behind ih => simpa using ih hread h.nextItem
  | case3 items frames v behind ih => simpa using ih hread h.lastItem
  | case4 members name frames v next behind ih => simpa using ih hread (h.nextMember next)
  | case5 members name frames v behind ih => simpa using ih hread h.lastMember
  | case6 frames v behind ih => simpa using ih hread (h.atom v)
  | case7 frames s behind ih => simpa using ih hread (h.string s)
  | case8 frames behind ih => simpa using ih hread h.emptyArray
  | case9 frames behind hne ih => simpa using ih hread h.openArray
  | case10 frames behind ih => simpa using ih hread h.emptyObject
  | case11 frames name behind ih => simpa using ih hread (h.openObject name)
  | case12 => cases hread

end Taking

section Texts

/-- A JSON text at the front is read as its value, unless what stands behind it continues a
number. -/
theorem IsText.readFrom_append {text rest : Scanned} {value : Json} (h : IsText text value)
    (hrest : ∀ n, value = .number n → EndsNumber rest) :
    readFrom [] .value (lexemes (text ++ rest)) = some (value, lexemes rest) := by
  obtain ⟨spelled, hspells, hphrase⟩ := h
  have hlexemes := hspells.lexemes_append hphrase.separable.isChain
    fun n hlast => hrest n (hphrase.eq_number_of_getLast? hlast)
  rw [hlexemes, hphrase.readsAs.read, readFrom]

/-- A whole JSON text is read as its value. -/
theorem IsText.readFrom {cs : Scanned} {value : Json} (h : IsText cs value) :
    Json.readFrom [] .value (lexemes cs) = some (value, []) := by
  have hread := h.readFrom_append fun _ _ => endsNumber_nil
  rwa [List.append_nil, lexemes_nil] at hread

/-- A value that is read stands at the front as a JSON text. -/
theorem exists_isText_of_readFrom {cs : Scanned} {value : Json} {behind : List Lexeme}
    (h : readFrom [] .value (lexemes cs) = some (value, behind)) :
    ∃ text rest, cs = text ++ rest ∧ IsText text value ∧ lexemes rest = behind := by
  obtain ⟨spelled, hcs, hphrase⟩ := exists_phrase_of_readFrom h (.value .nil)
  obtain ⟨text, rest, rfl, hspells, hrest⟩ :=
    exists_spells_of_lexemes hcs hphrase.separable.wellFormed
  exact ⟨text, rest, rfl, ⟨spelled, hspells, hphrase⟩, hrest⟩

/-- A whole text is read as a value just when it is a JSON text of it. -/
theorem ofScanned?_eq_some_iff {cs : Scanned} {value : Json} :
    ofScanned? cs = some value ↔ IsText cs value := by
  constructor
  · intro h
    rw [ofScanned?] at h
    split at h
    · rename_i hread
      cases h
      obtain ⟨text, rest, rfl, ⟨spelled, hspells, hphrase⟩, hrest⟩ :=
        exists_isText_of_readFrom hread
      have hwhole := hspells.append (areSpaces_of_lexemes_eq_nil hrest).spells
      exact ⟨spelled, by rwa [List.append_nil] at hwhole, hphrase⟩
    · cases h
  · intro h
    rw [ofScanned?, h.readFrom]

/-- With anything but spaces behind it, a JSON text that is no number is no JSON text. -/
theorem IsText.not_append {text rest : Scanned} {value : Json} (h : IsText text value)
    (hvalue : ∀ n, value ≠ .number n) (hrest : ¬AreSpaces rest) (other : Json) :
    ¬IsText (text ++ rest) other := by
  intro hother
  have hread : Json.readFrom [] .value (lexemes (text ++ rest)) = some (value, lexemes rest) :=
    h.readFrom_append fun n hn => absurd hn (hvalue n)
  rw [hother.readFrom] at hread
  exact hrest (areSpaces_of_lexemes_eq_nil (congrArg Prod.snd (Option.some.inj hread)).symm)

/-- The value at the front of a text, if it is no number, is the one whose JSON text stands there,
whatever is behind it. -/
theorem leading?_eq_some_iff {cs : Scanned} {value : Json} (hvalue : ∀ n, value ≠ .number n) :
    leading? cs = some value ↔ ∃ text rest, cs = text ++ rest ∧ IsText text value := by
  rw [leading?, Option.map_eq_some_iff]
  constructor
  · rintro ⟨⟨_, behind⟩, hread, rfl⟩
    obtain ⟨text, rest, hcs, htext, -⟩ := exists_isText_of_readFrom hread
    exact ⟨text, rest, hcs, htext⟩
  · rintro ⟨text, rest, rfl, htext⟩
    exact ⟨_, htext.readFrom_append fun n hn => absurd hn (hvalue n), rfl⟩

end Texts

end TokenSearch.Json
