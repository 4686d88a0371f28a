import Mathlib.Data.List.Chain
import TokenSearch.Proofs.Lexing

/-!
# Lexemes tile their text

A tile is a lexeme with the gap in front of it. Laid one behind another, the tiles of a text make
up the text again: the gaps are blank, the position of each lexeme is the length of what lies in
front of it, and a literal has no token character on either side. Scanning finds the tiles of
every text over the alphabet, and no other tiles could be laid. In any other text it reports the
first character that belongs to no tile.
-/

namespace TokenSearch

/-- The characters that a symbol stands for in a text. The end of a text has none. -/
def Symbol.chars : Symbol → List Char
  | .literal token => token.toList
  | .connective op => [op.symbol]
  | .openGroup => ['(']
  | .closeGroup => [')']
  | .stop => []

theorem byteLength_pos {cs : List Char} (h : cs ≠ []) : 0 < byteLength cs := by
  cases cs with
  | nil => exact absurd rfl h
  | cons c cs =>
    have hc := c.utf8Size_pos
    rw [byteLength]
    omega

/-- The length in bytes is that of the text that the characters make. -/
theorem byteLength_eq_utf8ByteSize (cs : List Char) :
    byteLength cs = (String.ofList cs).utf8ByteSize := by
  induction cs with
  | nil => rfl
  | cons c cs ih =>
    rw [byteLength, ih, String.ofList_cons, String.utf8ByteSize_append,
      String.utf8ByteSize_singleton]

theorem byteLength_toList (s : String) : byteLength s.toList = s.utf8ByteSize := by
  rw [byteLength_eq_utf8ByteSize, String.ofList_toList]

/-- What lies in front of a character of a text ends on a boundary of its characters. -/
theorem isValid_byteLength {s : String} {before after : List Char}
    (h : before ++ after = s.toList) : String.Pos.Raw.IsValid s ⟨byteLength before⟩ := by
  apply String.Pos.Raw.isValid_iff_exists_append.mpr
  refine ⟨String.ofList before, String.ofList after, ?_, ?_⟩
  · rw [← String.ofList_append, h, String.ofList_toList]
  · rw [byteLength_eq_utf8ByteSize]
    rfl

namespace Lexeme

/-- A lexeme with the gap in front of it. -/
structure Tile where
  gap : List Char
  lexeme : Lexeme
  deriving DecidableEq, Repr

namespace Tile

/-- The part of a text that a tile covers. -/
def chars (tile : Tile) : List Char := tile.gap ++ tile.lexeme.symbol.chars

/-- A tile lies between two parts of a text. -/
structure Fits (before : List Char) (tile : Tile) (after : List Char) : Prop where
  /-- The gap is blank. -/
  blank : ∀ c ∈ tile.gap, Text.isBlank c = true
  /-- The lexeme begins behind the gap. -/
  position : tile.lexeme.position = byteLength (before ++ tile.gap)
  /-- A literal is a run of token characters that none lies next to. -/
  literal : ∀ token, tile.lexeme.symbol = .literal token → isToken token = true ∧
    (∀ c ∈ (before ++ tile.gap).getLast?, isTokenChar c = false) ∧
    ∀ c ∈ after.head?, isTokenChar c = false

/-- Tiles lie one behind another, and the first one behind a part of a text. -/
def Laid (before : List Char) : List Tile → Prop
  | [] => True
  | tile :: tiles => tile.Fits before (tiles.flatMap chars) ∧ Laid (before ++ tile.chars) tiles

/-- The lexeme of a tile has characters, unless it is the end of the text. -/
theorem Fits.chars_ne_nil {before after : List Char} {tile : Tile} (h : tile.Fits before after)
    (hstop : tile.lexeme.symbol ≠ .stop) : tile.lexeme.symbol.chars ≠ [] := by
  cases hsymbol : tile.lexeme.symbol with
  | literal token => exact (isToken_iff.mp (h.literal token hsymbol).1).1
  | stop => exact absurd hsymbol hstop
  | connective | openGroup | closeGroup => exact List.cons_ne_nil _ _

/-- Tiles lie behind what is in front of the first one. -/
theorem Laid.byteLength_le {before : List Char} {tiles : List Tile} (h : Laid before tiles) :
    ∀ tile ∈ tiles, byteLength before ≤ tile.lexeme.position := by
  induction tiles generalizing before with
  | nil => exact nofun
  | cons first tiles ih =>
    obtain ⟨hfits, hlaid⟩ := h
    refine List.forall_mem_cons.mpr ⟨?_, ?_⟩
    · rw [hfits.position, byteLength_append]
      omega
    · intro tile ht
      have hle := ih hlaid tile ht
      rw [byteLength_append] at hle
      omega

/-- Lexemes stand in the order of their positions. -/
theorem Laid.increasing {before : List Char} {body : List Tile} {last : Tile}
    (h : Laid before (body ++ [last])) (hbody : ∀ tile ∈ body, tile.lexeme.symbol ≠ .stop) :
    (body ++ [last]).Pairwise fun first second =>
      first.lexeme.position < second.lexeme.position := by
  induction body generalizing before with
  | nil => exact List.pairwise_singleton _ _
  | cons first body ih =>
    obtain ⟨hfits, hlaid⟩ := h
    obtain ⟨hfirst, hbody⟩ := List.forall_mem_cons.mp hbody
    refine List.pairwise_cons.mpr ⟨?_, ih hlaid hbody⟩
    intro second hs
    have hle := hlaid.byteLength_le second hs
    have hpos := byteLength_pos (hfits.chars_ne_nil hfirst)
    rw [chars, ← List.append_assoc, byteLength_append, ← hfits.position] at hle
    omega

/-- Between two literals that follow each other there is a blank. Without it the first one would go
on with the characters of the second. -/
theorem Laid.separated {before : List Char} {tiles : List Tile} (h : Laid before tiles) :
    tiles.IsChain fun first second => ∀ token other,
      first.lexeme.symbol = .literal token → second.lexeme.symbol = .literal other →
        second.gap ≠ [] := by
  induction tiles generalizing before with
  | nil => exact .nil
  | cons first tiles ih =>
    obtain ⟨hfits, hlaid⟩ := h
    cases tiles with
    | nil => exact .singleton first
    | cons second tiles =>
      refine .cons_cons ?_ (ih hlaid)
      intro token other hfirst hsecond hgap
      obtain ⟨hne, hinside⟩ := isToken_iff.mp (hlaid.1.literal other hsecond).1
      obtain ⟨c, cs, hcs⟩ := List.exists_cons_of_ne_nil hne
      have hhead : c ∈ ((second :: tiles).flatMap chars).head? := by
        simp [chars, hgap, hsecond, Symbol.chars, hcs]
      have hc := (hfits.literal token hfirst).2.2 c hhead
      rw [hinside c (hcs ▸ List.mem_cons_self)] at hc
      cases hc

/-- Lexemes begin on boundaries of the characters of the text. -/
theorem Laid.isValid {s : String} {before : List Char} {tiles : List Tile} (h : Laid before tiles)
    (hs : before ++ tiles.flatMap chars = s.toList) :
    ∀ tile ∈ tiles, String.Pos.Raw.IsValid s ⟨tile.lexeme.position⟩ := by
  induction tiles generalizing before with
  | nil => exact nofun
  | cons first tiles ih =>
    obtain ⟨hfits, hlaid⟩ := h
    rw [List.flatMap_cons] at hs
    refine List.forall_mem_cons.mpr ⟨?_, ih hlaid (by rw [List.append_assoc, hs])⟩
    rw [hfits.position]
    apply isValid_byteLength
    rw [List.append_assoc, ← List.append_assoc first.gap, ← chars, hs]

/-- A blank in front belongs to the gap of the first tile. -/
theorem Laid.cons_gap {c : Char} (hc : Text.isBlank c = true) {before gap : List Char}
    {lexeme : Lexeme} {tiles : List Tile} (h : Laid (before ++ [c]) (⟨gap, lexeme⟩ :: tiles)) :
    Laid before (⟨c :: gap, lexeme⟩ :: tiles) := by
  obtain ⟨hfits, hlaid⟩ := h
  refine ⟨⟨List.forall_mem_cons.mpr ⟨hc, hfits.blank⟩, ?_, ?_⟩, ?_⟩
  · simpa using hfits.position
  · simpa using hfits.literal
  · simpa [chars] using hlaid

end Tile

open Tile (Laid)

/-- The lexemes of a text tile it. -/
structure Tiling (s : String) (tiles : List Tile) : Prop where
  /-- The text consists of the gaps and the lexemes in turn. -/
  text : tiles.flatMap Tile.chars = s.toList
  laid : Laid [] tiles
  increasing : tiles.Pairwise fun first second => first.lexeme.position < second.lexeme.position
  boundaries : ∀ tile ∈ tiles, String.Pos.Raw.IsValid s ⟨tile.lexeme.position⟩
  /-- Between two literals that follow each other there is a blank. -/
  separated : tiles.IsChain fun first second => ∀ token other,
    first.lexeme.symbol = .literal token → second.lexeme.symbol = .literal other →
      second.gap ≠ []
  /-- The last lexeme is the end of the text, and no other one is. -/
  closed : ∃ body gap, tiles = body ++ [⟨gap, ⟨.stop, s.utf8ByteSize⟩⟩] ∧
    ∀ tile ∈ body, tile.lexeme.symbol ≠ .stop

/-- A sign is the one character of its symbol, which is no literal. -/
theorem chars_of_symbolOf? {c : Char} {symbol : Symbol} (h : symbolOf? c = some symbol) :
    symbol.chars = [c] ∧ ∀ token, symbol ≠ .literal token := by
  unfold symbolOf? at h
  split at h <;> cases h <;> exact ⟨rfl, nofun⟩

/-- The symbols other than literals and the end are those of the signs. -/
theorem exists_symbolOf?_of_ne {symbol : Symbol} (hstop : symbol ≠ .stop)
    (hliteral : ∀ token, symbol ≠ .literal token) :
    ∃ c, symbol.chars = [c] ∧ symbolOf? c = some symbol := by
  cases symbol with
  | literal token => exact absurd rfl (hliteral token)
  | connective op => cases op <;> exact ⟨_, rfl, rfl⟩
  | openGroup => exact ⟨'(', rfl, rfl⟩
  | closeGroup => exact ⟨')', rfl, rfl⟩
  | stop => exact absurd rfl hstop

/-- The lexemes of a cut can be laid, behind what does not end in the middle of a literal. -/
theorem Cut.exists_laid {position : Nat} {cs : List Char} {lexemes : List Lexeme}
    (h : Cut position cs lexemes) (before : List Char) (hposition : position = byteLength before)
    (hbefore : ∀ c ∈ cs.head?, isTokenChar c = true →
      ∀ b ∈ before.getLast?, isTokenChar b = false) :
    ∃ tiles, tiles.map Tile.lexeme = lexemes ++ [⟨.stop, position + byteLength cs⟩] ∧
      tiles.flatMap Tile.chars = cs ∧ Laid before tiles := by
  induction h generalizing before with
  | @done position =>
    refine ⟨[⟨[], ⟨.stop, position⟩⟩], rfl, rfl, ⟨List.forall_mem_nil _, ?_, ?_⟩, trivial⟩
    · rw [hposition, List.append_nil]
    · intro token htoken
      cases htoken
  | @blank position c cs lexemes hc _ ih =>
    obtain ⟨tiles, hlexemes, htext, hlaid⟩ := ih (before ++ [c])
      (by simp [hposition, byteLength_append, byteLength])
      (by simp [isTokenChar_of_isBlank hc])
    cases tiles with
    | nil => simp at hlexemes
    | cons tile tiles =>
      obtain ⟨gap, lexeme⟩ := tile
      refine ⟨⟨c :: gap, lexeme⟩ :: tiles, ?_, ?_, hlaid.cons_gap hc⟩
      · rw [byteLength, ← Nat.add_assoc, ← hlexemes]
        rfl
      · rw [← htext]
        rfl
  | @sign position c cs symbol lexemes hc _ ih =>
    obtain ⟨hchars, hliteral⟩ := chars_of_symbolOf? hc
    obtain ⟨tiles, hlexemes, htext, hlaid⟩ := ih (before ++ [c])
      (by simp [hposition, byteLength_append, byteLength])
      (by simp [(isBlank_isTokenChar_of_symbolOf? hc).2])
    refine ⟨⟨[], ⟨symbol, position⟩⟩ :: tiles, ?_, ?_, ⟨List.forall_mem_nil _, ?_, ?_⟩, ?_⟩
    · rw [byteLength, ← Nat.add_assoc, List.map_cons, hlexemes]
      rfl
    · rw [List.flatMap_cons, htext, Tile.chars, hchars]
      rfl
    · rw [hposition, List.append_nil]
    · intro token htoken
      exact absurd htoken (hliteral token)
    · rw [Tile.chars, hchars]
      exact hlaid
  | @literal position run cs lexemes nonempty inside maximal _ ih =>
    obtain ⟨tiles, hlexemes, htext, hlaid⟩ := ih (before ++ run)
      (by rw [hposition, byteLength_append])
      (by
        intro c hc htoken
        rw [maximal c hc] at htoken
        cases htoken)
    have hchars : (Symbol.literal (String.ofList run)).chars = run := String.toList_ofList
    refine ⟨⟨[], ⟨.literal (String.ofList run), position⟩⟩ :: tiles, ?_, ?_,
      ⟨List.forall_mem_nil _, ?_, ?_⟩, ?_⟩
    · rw [byteLength_append, ← Nat.add_assoc, List.map_cons, hlexemes]
      rfl
    · rw [List.flatMap_cons, htext, Tile.chars, hchars]
      rfl
    · rw [hposition, List.append_nil]
    · rintro token ⟨⟩
      obtain ⟨c, run, rfl⟩ := List.exists_cons_of_ne_nil nonempty
      refine ⟨?_, ?_, htext ▸ maximal⟩
      · rw [isToken_iff, String.toList_ofList]
        exact ⟨nonempty, inside⟩
      · rw [List.append_nil]
        exact hbefore c rfl (inside c List.mem_cons_self)
    · rw [Tile.chars, hchars]
      exact hlaid

/-- Blanks in front of a cut change nothing. -/
theorem Cut.blanks_append {position : Nat} {gap cs : List Char} {lexemes : List Lexeme}
    (hgap : ∀ c ∈ gap, Text.isBlank c = true) (h : Cut (position + byteLength gap) cs lexemes) :
    Cut position (gap ++ cs) lexemes := by
  induction gap generalizing position with
  | nil => exact h
  | cons c gap ih =>
    obtain ⟨hc, hgap⟩ := List.forall_mem_cons.mp hgap
    rw [byteLength, ← Nat.add_assoc] at h
    exact .blank hc (ih hgap h)

/-- The lexemes of tiles are a cut of the text that the tiles cover. -/
theorem cut_of_laid {before gap : List Char} {body : List Tile} {position : Nat}
    (h : Laid before (body ++ [Tile.mk gap ⟨.stop, position⟩]))
    (hbody : ∀ tile ∈ body, tile.lexeme.symbol ≠ .stop) :
    Cut (byteLength before) ((body ++ [Tile.mk gap ⟨.stop, position⟩]).flatMap Tile.chars)
      (body.map Tile.lexeme) := by
  induction body generalizing before with
  | nil =>
    have hblank := h.1.blank
    simpa [Tile.chars, Symbol.chars] using Cut.blanks_append hblank Cut.done
  | cons tile body ih =>
    obtain ⟨hfits, hlaid⟩ := h
    obtain ⟨hstop, hbody⟩ := List.forall_mem_cons.mp hbody
    have hrest := ih hlaid hbody
    obtain ⟨front, ⟨symbol, start⟩⟩ := tile
    have hstart : start = byteLength before + byteLength front := by
      rw [← byteLength_append]
      exact hfits.position
    rw [Tile.chars, byteLength_append, byteLength_append, ← Nat.add_assoc, ← hstart] at hrest
    rw [List.cons_append, List.flatMap_cons, Tile.chars, List.append_assoc, List.map_cons]
    apply Cut.blanks_append hfits.blank
    rw [← hstart]
    by_cases hliteral : ∃ token, symbol = .literal token
    · obtain ⟨token, rfl⟩ := hliteral
      obtain ⟨htoken, -, hafter⟩ := hfits.literal token rfl
      obtain ⟨nonempty, inside⟩ := isToken_iff.mp htoken
      have hcut := Cut.literal nonempty inside hafter hrest
      rwa [String.ofList_toList] at hcut
    · obtain ⟨c, hchars, hc⟩ := exists_symbolOf?_of_ne hstop (not_exists.mp hliteral)
      rw [hchars, byteLength, byteLength, Nat.add_zero] at hrest
      rw [hchars]
      exact .sign hc hrest

/-- The tiles of a cut are a tiling. -/
theorem Cut.exists_tiling {s : String} {lexemes : List Lexeme} (h : Cut 0 s.toList lexemes) :
    ∃ tiles, Tiling s tiles ∧
      tiles.map Tile.lexeme = lexemes ++ [⟨.stop, s.utf8ByteSize⟩] := by
  obtain ⟨tiles, hlexemes, htext, hlaid⟩ := h.exists_laid [] rfl (by simp)
  rw [Nat.zero_add, byteLength_toList] at hlexemes
  obtain ⟨body, rest, rfl, hbody, hrest⟩ := List.map_eq_append_iff.mp hlexemes
  obtain ⟨⟨gap, lexeme⟩, tail, rfl, rfl, htail⟩ := List.map_eq_cons_iff.mp hrest
  obtain rfl := List.map_eq_nil_iff.mp htail
  have hstop : ∀ tile ∈ body, tile.lexeme.symbol ≠ .stop := by
    intro tile ht
    exact (h.symbols tile.lexeme (hbody ▸ List.mem_map_of_mem ht)).1
  exact ⟨_, ⟨htext, hlaid, hlaid.increasing hstop, hlaid.isValid htext, hlaid.separated, body, gap,
    rfl, hstop⟩, hlexemes⟩

/-- The scan finds every tiling. -/
theorem Tiling.scan_eq {s : String} {tiles : List Tile} (h : Tiling s tiles) :
    scan s = .ok (tiles.map Tile.lexeme) := by
  obtain ⟨body, gap, rfl, hbody⟩ := h.closed
  have hcut : Cut 0 s.toList (body.map Tile.lexeme) := h.text ▸ cut_of_laid h.laid hbody
  rw [scan, hcut.scanFrom_eq, Nat.zero_add, byteLength_toList, List.map_append,
    List.map_singleton]

/-- Every scan ends in one of two ways. Either the lexemes tile the text, or the first character
that is no blank, no token character and no sign is reported with its offset, which is a boundary
of the characters. Where there is a tiling, it is found. -/
theorem scan_tiling (s : String) :
    ((∃ tiles, Tiling s tiles ∧ scan s = .ok (tiles.map Tile.lexeme)) ∨
      ∃ before c after, s.toList = before ++ c :: after ∧ (∀ b ∈ before, InAlphabet b) ∧
        ¬ InAlphabet c ∧ String.Pos.Raw.IsValid s ⟨byteLength before⟩ ∧
        scan s = .error (.invalidCharacter c (byteLength before))) ∧
      ∀ tiles, Tiling s tiles → scan s = .ok (tiles.map Tile.lexeme) := by
  refine ⟨?_, fun tiles => Tiling.scan_eq⟩
  by_cases hs : ∀ c ∈ s.toList, InAlphabet c
  · obtain ⟨lexemes, hcut⟩ := exists_cut hs 0
    obtain ⟨tiles, htiling, -⟩ := hcut.exists_tiling
    exact Or.inl ⟨tiles, htiling, htiling.scan_eq⟩
  · obtain ⟨before, c, after, hsplit, hbefore, hc⟩ := exists_first_foreign hs
    obtain ⟨lexemes, hcut⟩ := exists_cut hbefore 0
    have hscan := hcut.scanFrom_foreign hc after
    rw [Nat.zero_add, ← hsplit] at hscan
    exact Or.inr ⟨before, c, after, hsplit, hbefore, hc, isValid_byteLength hsplit.symm, hscan⟩

/-- Positions count bytes, of which the letter has two and the no-break space has two. -/
example : scan "é\u00a0&x" =
    .ok [⟨.literal "é", 0⟩, ⟨.connective .and, 4⟩, ⟨.literal "x", 5⟩, ⟨.stop, 6⟩] := by
  decide +kernel

end Lexeme

end TokenSearch
