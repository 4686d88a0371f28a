import Mathlib.Data.List.Sort
import TokenSearch.Reply

/-!
# Replies and their lines

No two replies have the same line. The words at its front tell what kind of reply it is, since none
of them begins with others, and what stands behind them is an id, a message, or a list of ids. An id
is written with digits and a minus sign only. So each id of a list ends where the next comma or the
closing bracket stands, and the list can be told from its text. The ids of a set are listed in
ascending order, which makes the list the only one of its kind.
-/

namespace TokenSearch

namespace DocId

/-- The characters of ids. -/
def isIdChar (c : Char) : Bool := c = '-' || c.isDigit

theorem isIdChar_of_mem_text {id : DocId} {c : Char} (h : c ∈ id.text.toList) :
    isIdChar c = true := by
  rcases Text.Decimal.eq_minus_or_isDigit_of_mem_signed h with rfl | hdigit
  · rfl
  · rw [isIdChar, hdigit, Bool.or_true]

/-- Ids have different decimal forms. -/
theorem text_inj {d e : DocId} : d.text = e.text ↔ d = e := by
  constructor
  · intro h
    have hread := ofText?_text d
    rw [h, ofText?_text] at hread
    exact (Option.some.inj hread).symm
  · exact congrArg text

/-- The text of a list of ids, from behind its opening bracket. -/
def listing (ids : List DocId) : String := ", ".intercalate (ids.map text) ++ "]"

/-- The characters of a list of ids, from behind the first of them. -/
def further (ids : List DocId) : List Char :=
  ids.flatMap (fun id => ", ".toList ++ id.text.toList) ++ [']']

theorem toList_listing_cons (id : DocId) (ids : List DocId) :
    (listing (id :: ids)).toList = id.text.toList ++ further ids := by
  induction ids generalizing id with
  | nil => simp [listing, further]
  | cons second ids ih =>
    have hrest := ih second
    rw [listing, String.toList_append] at hrest
    rw [listing, List.map_cons, List.map_cons, String.intercalate_cons_cons, ← List.map_cons,
      String.append_assoc, String.toList_append, String.toList_append, String.toList_append, hrest]
    simp [further]

/-- What stands behind an id is no part of it. -/
theorem exists_further_eq (ids : List DocId) :
    ∃ c rest, further ids = c :: rest ∧ isIdChar c = false := by
  cases ids with
  | nil => exact ⟨']', [], rfl, rfl⟩
  | cons id ids => exact ⟨',', _, rfl, rfl⟩

/-- An id ends where what follows it begins, at the first character that no id has. -/
theorem text_further_inj {d e : DocId} {ids others : List DocId} :
    d.text.toList ++ further ids = e.text.toList ++ further others ↔
      d = e ∧ further ids = further others := by
  have hid (d : DocId) (ids : List DocId) :
      (d.text.toList ++ further ids).takeWhile isIdChar = d.text.toList ∧
        (d.text.toList ++ further ids).dropWhile isIdChar = further ids := by
    obtain ⟨c, rest, hfurther, hc⟩ := exists_further_eq ids
    have hd : ∀ c ∈ d.text.toList, isIdChar c = true := fun _ => isIdChar_of_mem_text
    rw [List.takeWhile_append_of_pos hd, List.dropWhile_append_of_pos hd, hfurther,
      List.takeWhile_cons_of_neg (by simp [hc]), List.dropWhile_cons_of_neg (by simp [hc]),
      List.append_nil]
    exact ⟨rfl, rfl⟩
  constructor
  · intro h
    have htake := (hid d ids).1
    have hdrop := (hid d ids).2
    rw [h, (hid e others).1, String.toList_inj, text_inj] at htake
    rw [h, (hid e others).2] at hdrop
    exact ⟨htake.symm, hdrop.symm⟩
  · rintro ⟨rfl, hfurther⟩
    rw [hfurther]

theorem further_inj {ids others : List DocId} : further ids = further others ↔ ids = others := by
  refine ⟨fun h => ?_, congrArg further⟩
  induction ids generalizing others with
  | nil =>
    cases others with
    | nil => rfl
    | cons e others => simp [further] at h
  | cons d ids ih =>
    cases others with
    | nil => simp [further] at h
    | cons e others =>
      have hids : d.text.toList ++ further ids = e.text.toList ++ further others := by
        simpa [further] using h
      obtain ⟨rfl, hfurther⟩ := text_further_inj.1 hids
      rw [ih hfurther]

/-- A list of ids can be told from its text. The text of the empty list is shorter than any other.
-/
theorem listing_inj {ids others : List DocId} : listing ids = listing others ↔ ids = others := by
  refine ⟨fun h => ?_, congrArg listing⟩
  have hne (d : DocId) (ids : List DocId) : listing [] ≠ listing (d :: ids) := by
    intro hempty
    have hlength := congrArg (·.toList.length) hempty
    have hid := List.length_pos_iff.2 (Text.Decimal.toList_signed_ne_nil d.toInt)
    have hbracket : (listing []).toList.length = 1 := rfl
    simp only [hbracket, toList_listing_cons, further, List.length_append,
      List.length_singleton] at hlength
    rw [← text] at hid
    omega
  cases ids with
  | nil =>
    cases others with
    | nil => rfl
    | cons e others => exact absurd h (hne e others)
  | cons d ids =>
    cases others with
    | nil => exact absurd h.symm (hne d ids)
    | cons e others =>
      rw [← String.toList_inj, toList_listing_cons, toList_listing_cons, text_further_inj,
        further_inj] at h
      rw [h.1, h.2]

end DocId

namespace Reply

/-- What a line is about. -/
inductive Kind
  | indexed
  | results
  | indexFailed
  | queryFailed
  | invalidCommand
  deriving DecidableEq

/-- The words at the front of a line. -/
def Kind.heading : Kind → String
  | .indexed => "index ok "
  | .results => "query results ["
  | .indexFailed => "index error "
  | .queryFailed => "query error "
  | .invalidCommand => "invalid command"

/-- No line can begin with two different headings. -/
theorem Kind.eq_of_prefix {kind other : Kind}
    (h : kind.heading.toList <+: other.heading.toList) : kind = other := by
  revert h
  cases kind <;> cases other <;> decide

def kind : Reply → Kind
  | .indexed _ => .indexed
  | .results _ => .results
  | .indexFailed _ => .indexFailed
  | .queryFailed _ => .queryFailed
  | .invalidCommand => .invalidCommand

/-- What stands behind the heading. -/
def body : Reply → String
  | .indexed id => id.text
  | .results ids => DocId.listing ids.toList
  | .indexFailed message => message
  | .queryFailed message => message
  | .invalidCommand => ""

theorem text_eq (reply : Reply) : reply.text = reply.kind.heading ++ reply.body := by
  cases reply with
  | results ids => exact String.append_assoc ..
  | _ => rfl

/-- The kind of a reply and what stands behind the heading can be told from the line. -/
theorem kind_body_of_text_eq {reply other : Reply} (h : reply.text = other.text) :
    reply.kind = other.kind ∧ reply.body = other.body := by
  rw [text_eq, text_eq, ← String.toList_inj, String.toList_append, String.toList_append] at h
  have hkind : reply.kind = other.kind := by
    have hfront : reply.kind.heading.toList <+: _ := List.prefix_append _ reply.body.toList
    have hother : other.kind.heading.toList <+: _ := List.prefix_append _ other.body.toList
    rw [← h] at hother
    rcases List.prefix_or_prefix_of_prefix hfront hother with hprefix | hprefix
    · exact Kind.eq_of_prefix hprefix
    · exact (Kind.eq_of_prefix hprefix).symm
  rw [hkind, List.append_cancel_left_eq, String.toList_inj] at h
  exact ⟨hkind, h⟩

theorem eq_of_kind_body {reply other : Reply} (hkind : reply.kind = other.kind)
    (hbody : reply.body = other.body) : reply = other := by
  cases reply with
  | indexed id =>
    cases other with
    | indexed d => rw [DocId.text_inj.1 hbody]
    | _ => cases hkind
  | results ids =>
    cases other with
    | results others => rw [Std.ExtTreeSet.toList_inj.1 (DocId.listing_inj.1 hbody)]
    | _ => cases hkind
  | indexFailed message =>
    cases other with
    | indexFailed words => exact congrArg indexFailed hbody
    | _ => cases hkind
  | queryFailed message =>
    cases other with
    | queryFailed words => exact congrArg queryFailed hbody
    | _ => cases hkind
  | invalidCommand =>
    cases other with
    | invalidCommand => rfl
    | _ => cases hkind

/-- Replies with the same line are the same. The line of a result shows just one list of ids, in
ascending order and without repeats, and these are the ids of the result. -/
theorem text_told_apart :
    (∀ reply other : Reply, reply.text = other.text ↔ reply = other) ∧
      ∀ (ids : IdSet) (listed : List DocId),
        (results ids).text =
            "query results [" ++ ", ".intercalate (listed.map DocId.text) ++ "]" ↔
          listed.Pairwise (· < ·) ∧ ∀ d, d ∈ listed ↔ d ∈ ids := by
  constructor
  · intro reply other
    refine ⟨fun h => ?_, congrArg text⟩
    obtain ⟨hkind, hbody⟩ := kind_body_of_text_eq h
    exact eq_of_kind_body hkind hbody
  · intro ids listed
    have hline : (results ids).text =
        "query results [" ++ ", ".intercalate (listed.map DocId.text) ++ "]" ↔
          ids.toList = listed := by
      rw [text_eq, String.append_assoc, ← DocId.listing, ← DocId.listing_inj,
        ← String.toList_inj, String.toList_append, String.toList_append]
      exact (List.append_cancel_left_eq _ _ _).to_iff.trans String.toList_inj
    rw [hline]
    constructor
    · rintro rfl
      exact ⟨pairwise_toList ids, fun d => Std.ExtTreeSet.mem_toList⟩
    · rintro ⟨hascending, hmem⟩
      exact (pairwise_toList ids).eq_of_mem_iff hascending fun d =>
        Std.ExtTreeSet.mem_toList.trans (hmem d).symm

/-- The sign counts in the order of the ids, and repeats are gone. -/
example :
    (results (.ofList ([7, -1, 2147483647, -2147483648, 7] : List DocId))).text =
      "query results [-2147483648, -1, 7, 2147483647]" := by
  decide +kernel

end Reply

end TokenSearch
