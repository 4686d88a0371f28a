import TokenSearch.Proofs.Json.Grammar
import TokenSearch.Proofs.Json.Lexing

/-!
# Compact JSON

The compact form of a value has no spaces between its parts, and its numbers are integers. A text
in this form is a JSON text of the value, so it is read as the value that it was written for.
-/

namespace TokenSearch.Json

open Text (Scanned)

/-- A member of an object as it is written: its name, and the text and the value behind it. -/
structure Member where
  name : String
  text : String
  value : Json

namespace Member

/-- A member that is a string. -/
def ofString (name value : String) : Member :=
  ⟨name, quote value, .string (value.toList.map some)⟩

@[simp] theorem name_ofString (name value : String) : (ofString name value).name = name := rfl

@[simp] theorem string?_ofString (name value : String) :
    (ofString name value).value.string? = some value := known?_map_some value

/-- The text of a member. -/
def pair (member : Member) : String := quote member.name ++ ":" ++ member.text

/-- The text of an object. -/
def object (members : List Member) : String := "\x7b" ++ ",".intercalate (members.map pair) ++ "\x7d"

/-- The value of an object. -/
def toJson (members : List Member) : Json :=
  .object (members.map fun member => (member.name.toList.map some, member.value))

end Member

/-- A text is the compact form of a value. -/
inductive Compact : String → Json → Prop
  | string (s : String) : Compact (quote s) (.string (s.toList.map some))
  | integer (n : Int) : Compact (Text.Decimal.signed n) (.number (.ofInt n))
  | array {items : List (String × Json)} (hitems : ∀ item ∈ items, Compact item.1 item.2) :
    Compact ("[" ++ ",".intercalate (items.map (·.1)) ++ "]") (.array (items.map (·.2)))
  | object {members : List Member} (hmembers : ∀ member ∈ members, Compact member.text member.value) :
    Compact (Member.object members) (Member.toJson members)

theorem compact_ofString (name value : String) :
    Compact (Member.ofString name value).text (Member.ofString name value).value := .string value

/-- Texts with commas between them spell their lexemes with commas between them. -/
theorem spells_intercalate {texts : List String} {parts : List (List Lexeme)}
    (h : List.Forall₂ (fun text part => Spells (text.toList.map some) part) texts parts) :
    Spells ((",".intercalate texts).toList.map some) ([.comma].intercalate parts) := by
  induction h with
  | nil => exact .nil
  | @cons text part texts parts htext htexts ih =>
    cases htexts with
    | nil => simpa using htext
    | cons =>
      have hcomma : IsSpelling [some ','] .comma := .sign (by simp [signs])
      rw [String.intercalate_cons_cons, List.intercalate_cons_cons]
      simpa using htext.append (hcomma.spells.append ih)

/-- Lexemes between two signs are spelled by their text between the signs. -/
theorem Spells.enclosed {text : Scanned} {spelled : List Lexeme} (h : Spells text spelled)
    {first last : Char} {opening closing : Lexeme} (hopening : (first, opening) ∈ signs)
    (hclosing : (last, closing) ∈ signs) :
    Spells (some first :: (text ++ [some last])) (opening :: (spelled ++ [closing])) :=
  .lexeme (.sign hopening) (h.append (IsSpelling.sign hclosing).spells)

/-- JSON texts of items make up a JSON text of their array. -/
theorem isText_array {items : List (String × Json)}
    (hitems : ∀ item ∈ items, IsText (item.1.toList.map some) item.2) :
    IsText (("[" ++ ",".intercalate (items.map (·.1)) ++ "]").toList.map some)
      (.array (items.map (·.2))) := by
  have hparts : ∃ parts : List (List Lexeme × Json), (∀ part ∈ parts, Phrase part.1 part.2) ∧
      parts.map (·.2) = items.map (·.2) ∧
      List.Forall₂ (fun text part => Spells (text.toList.map some) part)
        (items.map (·.1)) (parts.map (·.1)) := by
    induction items with
    | nil => exact ⟨[], List.forall_mem_nil _, rfl, .nil⟩
    | cons item items ih =>
      obtain ⟨⟨spelled, hspells, hphrase⟩, hitems⟩ := List.forall_mem_cons.mp hitems
      obtain ⟨parts, hphrases, hvalues, htexts⟩ := ih hitems
      exact ⟨(spelled, item.2) :: parts, List.forall_mem_cons.mpr ⟨hphrase, hphrases⟩,
        congrArg (item.2 :: ·) hvalues, .cons hspells htexts⟩
  obtain ⟨parts, hphrases, hvalues, htexts⟩ := hparts
  have hspells := (spells_intercalate htexts).enclosed
    (show ('[', .openArray) ∈ signs by simp [signs])
    (show (']', .closeArray) ∈ signs by simp [signs])
  have hphrase := Phrase.array hphrases
  rw [hvalues] at hphrase
  exact ⟨_, by simpa using hspells, hphrase⟩

/-- JSON texts of the values of members make up a JSON text of their object. -/
theorem isText_object {members : List Member}
    (hmembers : ∀ member ∈ members, IsText (member.text.toList.map some) member.value) :
    IsText ((Member.object members).toList.map some) (Member.toJson members) := by
  have hcolon : IsSpelling [some ':'] .colon := .sign (by simp [signs])
  have hparts : ∃ properties : List Property,
      (∀ property ∈ properties, Phrase property.spelled property.value) ∧
      properties.map Property.pair =
        members.map (fun member => (member.name.toList.map some, member.value)) ∧
      List.Forall₂ (fun text part => Spells (text.toList.map some) part)
        (members.map Member.pair) (properties.map Property.phrase) := by
    induction members with
    | nil => exact ⟨[], List.forall_mem_nil _, rfl, .nil⟩
    | cons member members ih =>
      obtain ⟨⟨spelled, hspells, hphrase⟩, hmembers⟩ := List.forall_mem_cons.mp hmembers
      obtain ⟨properties, hphrases, hpairs, htexts⟩ := ih hmembers
      have hpair := (isSpelling_quote member.name).spells.append (hcolon.spells.append hspells)
      refine ⟨⟨member.name.toList.map some, spelled, member.value⟩ :: properties,
        List.forall_mem_cons.mpr ⟨hphrase, hphrases⟩, congrArg (_ :: ·) hpairs, .cons ?_ htexts⟩
      simpa [Member.pair, Property.phrase] using hpair
  obtain ⟨properties, hphrases, hpairs, htexts⟩ := hparts
  have hspells := (spells_intercalate htexts).enclosed
    (show ('{', .openObject) ∈ signs by simp [signs])
    (show ('}', .closeObject) ∈ signs by simp [signs])
  have hphrase := Phrase.object hphrases
  rw [hpairs] at hphrase
  exact ⟨_, by simpa [Member.object] using hspells, hphrase⟩

/-- A text in compact form is a JSON text of its value. -/
theorem Compact.isText {text : String} {value : Json} (h : Compact text value) :
    IsText (text.toList.map some) value := by
  induction h with
  | string s => exact ⟨_, (isSpelling_quote s).spells, .string _⟩
  | integer n => exact ⟨_, (isSpelling_signed n).spells, .atom _⟩
  | array _ ih => exact isText_array ih
  | object _ ih => exact isText_object ih

/-- The names of written members are known. -/
theorem members?_map (members : List Member) :
    members? (members.map fun member => (member.name.toList.map some, member.value)) =
      some (members.map fun member => (member.name, member.value)) := by
  rw [members?]
  exact mapM_map_some (fun member => by simp) members

/-- A compact text is read as the value that was written. -/
theorem Compact.ofText? {text : String} {value : Json} (h : Compact text value) :
    Json.ofText? text = some value :=
  ofScanned?_eq_some_iff.mpr h.isText

/-- The value at the front of a compact text is the one that was written. -/
theorem Compact.leading? {text : String} {value : Json} (h : Compact text value) :
    Json.leading? (text.toList.map some) = some value := by
  rw [Json.leading?, h.isText.readFrom, Option.map_some]

/-- A list is written item by item. -/
theorem Compact.list {α : Type} {write : α → String} {value : α → Json}
    (h : ∀ a, Compact (write a) (value a)) (items : List α) :
    Compact ("[" ++ ",".intercalate (items.map write) ++ "]") (.array (items.map value)) := by
  have hitems : ∀ item ∈ items.map fun a => (write a, value a), Compact item.1 item.2 := by
    simpa using fun a _ => h a
  simpa only [List.map_map, Function.comp_def] using Compact.array hitems

end TokenSearch.Json
