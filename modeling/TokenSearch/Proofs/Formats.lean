import TokenSearch.Proofs.Records
import TokenSearch.Store.Config

/-!
# Written formats

The record of a document and the text of a store configuration are compact JSON, and what was
written is read back, whatever characters the strings in it have. So a text that is read, in
whatever form, can be written anew without a change of what it stands for. Control characters are
escaped in strings and stand nowhere else in compact JSON, so what is written is a single line.
-/

namespace TokenSearch

namespace Json

/-- No character of a text is a control character. -/
def ControlFree (text : String) : Prop := ∀ c ∈ text.toList, 0x20 ≤ c.toNat

theorem controlFree_append {text further : String} (h : ControlFree text)
    (hfurther : ControlFree further) : ControlFree (text ++ further) := by
  intro c hc
  rw [String.toList_append, List.mem_append] at hc
  exact hc.elim (h c) (hfurther c)

/-- Parts without control characters have none when commas are put between them. -/
theorem controlFree_intercalate {parts : List String} (h : ∀ part ∈ parts, ControlFree part) :
    ControlFree (",".intercalate parts) := by
  induction parts with
  | nil => exact nofun
  | cons part parts ih =>
    obtain ⟨hpart, hparts⟩ := List.forall_mem_cons.1 h
    cases parts with
    | nil => rwa [String.intercalate_singleton]
    | cons second parts =>
      have hcomma : ControlFree "," := by simp [ControlFree]
      rw [String.intercalate_cons_cons]
      exact controlFree_append (controlFree_append hpart hcomma) (ih hparts)

/-- Neither digits nor the minus sign are control characters. -/
theorem controlFree_signed (n : Int) : ControlFree (Text.Decimal.signed n) := by
  intro c hc
  rcases Text.Decimal.eq_minus_or_isDigit_of_mem_signed hc with rfl | hdigit
  · decide
  · exact Nat.le_trans (by decide) (Char.isDigit_iff_toNat.1 hdigit).1

/-- What stands for a character in a written string has no control characters. -/
theorem controlFree_escape (c : Char) : ∀ d ∈ escape c, 0x20 ≤ d.toNat := by
  unfold escape
  split
  case h_8 =>
    split
    · rename_i hcontrol
      have hc : c.toNat < 32 := hcontrol
      have hdigit : ∀ n : Fin 16, 0x20 ≤ (Nat.digitChar n).toNat := by decide
      have hhigh := hdigit ⟨c.toNat / 16, by omega⟩
      have hlow := hdigit ⟨c.toNat % 16, by omega⟩
      simp only [List.forall_mem_cons]
      exact ⟨by decide, by decide, by decide, by decide, hhigh, hlow, nofun⟩
    · rename_i hplain
      rw [List.forall_mem_singleton]
      exact Nat.le_of_not_lt hplain
  all_goals simp

theorem controlFree_quote (s : String) : ControlFree (quote s) := by
  have hquote : ControlFree "\"" := by simp [ControlFree]
  have hescaped : ControlFree (String.ofList (s.toList.flatMap escape)) := by
    intro d hd
    rw [String.toList_ofList] at hd
    obtain ⟨c, -, hc⟩ := List.mem_flatMap.1 hd
    exact controlFree_escape c d hc
  exact controlFree_append (controlFree_append hquote hescaped) hquote

/-- Compact JSON has no control characters. -/
theorem Compact.controlFree {text : String} {value : Json} (h : Compact text value) :
    ControlFree text := by
  have hsign {sign : String} (hsign : sign ∈ ["[", "]", "\x7b", "\x7d", ":"]) :
      ControlFree sign := by
    revert sign
    simp [ControlFree]
  induction h with
  | string s => exact controlFree_quote s
  | integer n => exact controlFree_signed n
  | @array items _ ih =>
    have hitems := controlFree_intercalate (List.forall_mem_map.2 ih)
    exact controlFree_append (controlFree_append (hsign (by simp)) hitems) (hsign (by simp))
  | @object members _ ih =>
    have hmembers : ∀ member ∈ members, ControlFree member.pair := fun member hmember =>
      controlFree_append (controlFree_append (controlFree_quote _) (hsign (by simp)))
        (ih member hmember)
    have hobject := controlFree_intercalate (List.forall_mem_map.2 hmembers)
    exact controlFree_append (controlFree_append (hsign (by simp)) hobject) (hsign (by simp))

end Json

namespace StoreConfig

/-- The members of the text of a configuration. -/
def members : StoreConfig → List Json.Member
  | .filesystem directory => [.ofString "kind" "filesystem", .ofString "dir" directory]
  | .memory => [.ofString "kind" "memory"]

/-- The text of a configuration is the compact form of its members. -/
theorem compact_text (config : StoreConfig) :
    Json.Compact config.text (Json.Member.toJson config.members) := by
  have htext : config.text = Json.Member.object config.members := by
    cases config with
    | filesystem directory =>
      have hwritten : (filesystem directory).text =
          "\x7b\"kind\":\"filesystem\",\"dir\":" ++ Json.quote directory ++ "\x7d" := rfl
      have hkind : (Json.Member.ofString "kind" "filesystem").pair = "\"kind\":\"filesystem\"" := by
        decide
      have hdir : (Json.Member.ofString "dir" directory).pair =
          "\"dir\"" ++ ":" ++ Json.quote directory := by
        rw [Json.Member.pair, Json.Member.ofString, show Json.quote "dir" = "\"dir\"" by decide]
      rw [hwritten, members, Json.Member.object, List.map_cons, List.map_singleton, hkind, hdir,
        ← String.toList_inj]
      simp
    | memory => decide
  rw [htext]
  refine .object ?_
  cases config with
  | filesystem directory =>
    exact List.forall_mem_cons.2
      ⟨Json.compact_ofString _ _, List.forall_mem_singleton.2 (Json.compact_ofString _ _)⟩
  | memory => exact List.forall_mem_singleton.2 (Json.compact_ofString _ _)

/-- The members of a configuration are read as the configuration. -/
theorem ofJson?_members (config : StoreConfig) :
    ofJson? (Json.Member.toJson config.members) = some config := by
  have hplain : (Json.Member.toJson config.members).isPlain nestingLimit = true := by
    cases config <;>
      simp [Json.Member.toJson, members, Json.Member.ofString, Json.isPlain, Json.membersPlain,
        nestingLimit]
  unfold ofJson?
  rw [if_pos hplain]
  simp only [Json.Member.toJson, Json.members?_map]
  cases config with
  | filesystem directory => simp [members, Json.member?]
  | memory => simp [members, Json.member?]

/-- The text of a configuration is read as the configuration. -/
theorem ofText?_text (config : StoreConfig) : ofText? config.text = some config := by
  rw [ofText?, config.compact_text.ofText?, Option.bind_some, ofJson?_members]

end StoreConfig

/-- A format in which values are written and read back without loss. -/
structure Lossless {α : Type} (write : α → String) (read? : String → Option α)
    (toJson : α → Json) : Prop where
  /-- What is written is the compact form of a JSON value. -/
  compact (a : α) : Json.Compact (write a) (toJson a)
  readBack (a : α) : read? (write a) = some a
  /-- A text in any form that can be read may be written anew: it is read as before. -/
  rewritten (s : String) : ((read? s).map write).bind read? = read? s
  /-- What is written is a single line. -/
  controlFree (a : α) : Json.ControlFree (write a)

/-- A format of compact JSON that is read back is without loss. -/
theorem lossless_of_compact {α : Type} {write : α → String} {read? : String → Option α}
    {toJson : α → Json} (compact : ∀ a, Json.Compact (write a) (toJson a))
    (readBack : ∀ a, read? (write a) = some a) : Lossless write read? toJson where
  compact := compact
  readBack := readBack
  rewritten s := by
    cases h : read? s with
    | none => rfl
    | some a => rw [Option.map_some, Option.bind_some, readBack]
  controlFree a := (compact a).controlFree

/-- Records and configurations are written and read back without loss, for every id and whatever
characters the tokens and the directory have. -/
theorem lossless_formats :
    Lossless Document.record Document.ofRecord? (Json.Member.toJson ·.members) ∧
      Lossless StoreConfig.text StoreConfig.ofText? (Json.Member.toJson ·.members) :=
  ⟨lossless_of_compact Document.compact_record Document.ofRecord?_record,
    lossless_of_compact StoreConfig.compact_text StoreConfig.ofText?_text⟩

/-- Another order, an unknown member and spaces are lost when a record is written anew, and nothing
else. -/
example :
    (Document.ofRecord?
        "\x7b \"tokens\": [\"\\u0061\\n\"], \"x\": null, \"id\": -7 \x7d").map Document.record =
      some "\x7b\"id\":-7,\"tokens\":[\"a\\n\"]\x7d" := by
  decide +kernel

end TokenSearch
