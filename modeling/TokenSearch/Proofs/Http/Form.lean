import Mathlib.Data.List.TakeWhile
import TokenSearch.Http
import TokenSearch.Proofs.Json.Lexing
import TokenSearch.Text.Utf8.RoundTrip

/-!
# Percent-encoded queries

A text is percent-encoded byte by byte: as the character itself where this is safe, as `+` for a
space, or as `%` with two hexadecimal digits. However it is encoded, the service finds the text
again as the value of the field, and every text can be encoded.
-/

namespace TokenSearch.Http

namespace Form

/-- A text is a percent-encoded form of some bytes. -/
inductive Encodes : List Char → List UInt8 → Prop
  | nil : Encodes [] []
  | plain {c : Char} {cs : List Char} {bytes : List UInt8} (hascii : c.toNat < 0x80)
    (hplain : c ∉ ['%', '+', '&', '#']) (rest : Encodes cs bytes) :
    Encodes (c :: cs) (c.toNat.toUInt8 :: bytes)
  | space {cs : List Char} {bytes : List UInt8} (rest : Encodes cs bytes) :
    Encodes ('+' :: cs) (0x20 :: bytes)
  | byte {high low : Char} {cs : List Char} {b : UInt8} {bytes : List UInt8}
    (hhigh : Json.hexDigit? high = some (b.toNat / 16))
    (hlow : Json.hexDigit? low = some (b.toNat % 16)) (rest : Encodes cs bytes) :
    Encodes ('%' :: high :: low :: cs) (b :: bytes)

/-- Each byte as `%` with its two hexadecimal digits. -/
def escape (bytes : List UInt8) : List Char :=
  bytes.flatMap fun b => ['%', Nat.digitChar (b.toNat / 16), Nat.digitChar (b.toNat % 16)]

/-- All bytes can be percent-encoded. -/
theorem encodes_escape (bytes : List UInt8) : Encodes (escape bytes) bytes := by
  induction bytes with
  | nil => exact .nil
  | cons b bytes ih =>
    have hb := b.toNat_lt
    exact .byte (Json.hexDigit?_digitChar (by omega)) (Json.hexDigit?_digitChar (by omega)) ih

/-- A hexadecimal digit is a character of ASCII, and its byte is read as its value. -/
theorem of_hexDigit? {c : Char} {n : Nat} (h : Json.hexDigit? c = some n) :
    c.toNat < 0x80 ∧ c ≠ '&' ∧ c ≠ '#' ∧ hexDigit? c.toNat.toUInt8 = some n.toUInt8 := by
  have hascii : c.toNat < 0x80 := by
    have hbound {last : Char} (hc : c ≤ last) (hlast : last.toNat < 0x80) : c.toNat < 0x80 :=
      Nat.lt_of_le_of_lt hc hlast
    unfold Json.hexDigit? at h
    split at h
    · rename_i hrange
      exact hbound hrange.2 (by decide)
    · split at h
      · rename_i hrange
        exact hbound hrange.2 (by decide)
      · split at h
        · rename_i hrange
          exact hbound hrange.2 (by decide)
        · cases h
  have hall : ∀ k : Fin 0x80, ∀ v ∈ Json.hexDigit? (Char.ofNat k),
      Char.ofNat k ≠ '&' ∧ Char.ofNat k ≠ '#' ∧ hexDigit? k.val.toUInt8 = some v.toUInt8 := by
    decide +kernel
  have hc := hall ⟨c.toNat, hascii⟩ n
  rw [Char.ofNat_toNat] at hc
  exact ⟨hascii, hc h⟩

/-- A character of ASCII is a single byte. -/
theorem encode_cons {c : Char} (h : c.toNat < 0x80) (cs : List Char) :
    Text.Utf8.encode (c :: cs) = c.toNat.toUInt8 :: Text.Utf8.encode cs := by
  rw [Text.Utf8.encode, List.flatMap_cons, Text.Utf8.encodeChar, if_pos h]
  rfl

/-- Characters of ASCII with the same byte are the same. -/
theorem byte_ne_byte {c d : Char} (hc : c.toNat < 0x80) (hd : d.toNat < 0x80) (hne : c ≠ d) :
    c.toNat.toUInt8 ≠ d.toNat.toUInt8 := by
  intro h
  have hbyte := congrArg UInt8.toNat h
  rw [Text.Utf8.toNat_toUInt8 (by omega), Text.Utf8.toNat_toUInt8 (by omega)] at hbyte
  apply hne
  rw [← Char.ofNat_toNat c, hbyte, Char.ofNat_toNat]

/-- A byte that is neither an escape nor a space stands for itself. -/
theorem unescape_cons {b : UInt8} (hescape : b ≠ 0x25) (hspace : b ≠ 0x2B) (bytes : List UInt8) :
    unescape (b :: bytes) = b :: unescape bytes := by
  rw [unescape]
  · rintro _ _ _ rfl
    exact absurd rfl hescape
  · exact hspace

/-- Two hexadecimal digits behind an escape stand for a byte. -/
theorem unescape_byte {high low : Char} {b : UInt8}
    (hhigh : Json.hexDigit? high = some (b.toNat / 16))
    (hlow : Json.hexDigit? low = some (b.toNat % 16)) (bytes : List UInt8) :
    unescape (0x25 :: high.toNat.toUInt8 :: low.toNat.toUInt8 :: bytes) = b :: unescape bytes := by
  have hb := b.toNat_lt
  have hvalue : (b.toNat / 16).toUInt8 * 16 + (b.toNat % 16).toUInt8 = b := by
    rw [← UInt8.toNat_inj]
    simp
    omega
  simp only [unescape, (of_hexDigit? hhigh).2.2.2, (of_hexDigit? hlow).2.2.2, hvalue]

/-- A percent-encoded text stands for the bytes that it was made from. -/
theorem Encodes.unescape {cs : List Char} {bytes : List UInt8} (h : Encodes cs bytes) :
    Form.unescape (Text.Utf8.encode cs) = bytes := by
  induction h with
  | nil => rfl
  | @plain c cs bytes hascii hplain rest ih =>
    simp only [List.mem_cons, List.not_mem_nil, or_false, not_or] at hplain
    have hescape := byte_ne_byte hascii (d := '%') (by decide) hplain.1
    have hspace := byte_ne_byte hascii (d := '+') (by decide) hplain.2.1
    rw [encode_cons hascii, unescape_cons hescape hspace, ih]
  | space rest ih =>
    rw [encode_cons (by decide)]
    exact congrArg _ ih
  | byte hhigh hlow rest ih =>
    rw [encode_cons (by decide), encode_cons (of_hexDigit? hhigh).1,
      encode_cons (of_hexDigit? hlow).1]
    exact (unescape_byte hhigh hlow _).trans (congrArg _ ih)

/-- A percent-encoded text has no separator and no fragment. -/
theorem Encodes.not_mem {cs : List Char} {bytes : List UInt8} (h : Encodes cs bytes) :
    '#' ∉ cs ∧ 0x26 ∉ Text.Utf8.encode cs := by
  induction h with
  | nil => simp [Text.Utf8.encode]
  | @plain c cs bytes hascii hplain rest ih =>
    simp only [List.mem_cons, List.not_mem_nil, or_false, not_or] at hplain
    have hseparator := byte_ne_byte hascii (d := '&') (by decide) hplain.2.2.1
    rw [encode_cons hascii, List.mem_cons, List.mem_cons, not_or, not_or]
    exact ⟨⟨Ne.symm hplain.2.2.2, ih.1⟩, Ne.symm hseparator, ih.2⟩
  | space rest ih =>
    rw [encode_cons (by decide)]
    simpa using ih
  | @byte high low cs b bytes hhigh hlow rest ih =>
    obtain ⟨hascii, hseparator, hfragment, -⟩ := of_hexDigit? hhigh
    obtain ⟨hascii', hseparator', hfragment', -⟩ := of_hexDigit? hlow
    have hbyte := byte_ne_byte hascii (d := '&') (by decide) hseparator
    have hbyte' := byte_ne_byte hascii' (d := '&') (by decide) hseparator'
    rw [encode_cons (by decide), encode_cons hascii, encode_cons hascii']
    simp only [List.mem_cons, not_or]
    exact ⟨⟨by decide, Ne.symm hfragment, Ne.symm hfragment', ih.1⟩,
      ⟨by decide, Ne.symm hbyte, Ne.symm hbyte', ih.2⟩⟩

/-- The bytes of an encoded text are read as the text. -/
theorem decodePart_encode {cs : List Char} {text : String}
    (h : Encodes cs (Text.Utf8.encode text.toList)) :
    decodePart (Text.Utf8.encode cs) = text := by
  rw [decodePart, h.unescape, Text.Utf8.decodeLossy_encode, String.ofList_toList]

/-- An encoded text behind the name of a field is the value of the field. -/
theorem field?_encode {cs : List Char} {text : String}
    (h : Encodes cs (Text.Utf8.encode text.toList)) :
    field? "q" (String.ofList ("q=".toList ++ cs)) = some text := by
  have hbytes : Text.Utf8.encode (String.ofList ("q=".toList ++ cs)).toList =
      0x71 :: 0x3D :: Text.Utf8.encode cs := by
    rw [String.toList_ofList]
    exact (encode_cons (by decide) _).trans (congrArg _ (encode_cons (by decide) cs))
  have hsingle : (0x71 :: 0x3D :: Text.Utf8.encode cs).splitOn 0x26 =
      [0x71 :: 0x3D :: Text.Utf8.encode cs] :=
    List.splitOn_eq_singleton (by simp [h.not_mem.2])
  have hpair : decodePair (0x71 :: 0x3D :: Text.Utf8.encode cs) = ("q", text) := by
    have hname : decodePart [0x71] = "q" := by decide
    simp [decodePair, hname, decodePart_encode h]
  have hfields : fields (String.ofList ("q=".toList ++ cs)) = [("q", text)] := by
    rw [fields, hbytes, hsingle, List.filter_cons_of_pos rfl, List.filter_nil, List.map_cons, hpair,
      List.map_nil]
  rw [field?, hfields]
  rfl

end Form

/-- A request looks up an expression. -/
structure Request.LooksUp (request : Request) (expression : String) : Prop where
  method : request.method = "GET"
  path : pathOf request.uri = "/query"
  field : Form.field? "q" (queryOf request.uri) = some expression

/-- A request has the expression that it looks up percent-encoded in its address. -/
structure Request.Asks (request : Request) (expression : String) : Prop where
  method : request.method = "GET"
  uri : ∃ text : List Char, request.uri = "/query?q=" ++ String.ofList text ∧
    Form.Encodes text (Text.Utf8.encode expression.toList)

/-- A request can ask for any expression. -/
theorem Request.exists_asks (expression : String) : ∃ request : Request, request.Asks expression :=
  ⟨⟨"GET", _, none, []⟩, rfl, _, rfl, Form.encodes_escape _⟩

/-- The encoded expression is the one that is looked up. -/
theorem Request.Asks.looksUp {request : Request} {expression : String}
    (h : request.Asks expression) : request.LooksUp expression := by
  obtain ⟨text, huri, hencodes⟩ := h.uri
  have htarget : targetOf request.uri = "/query".toList ++ '?' :: ("q=".toList ++ text) := by
    have hwhole : request.uri.toList = "/query".toList ++ '?' :: ("q=".toList ++ text) := by
      rw [huri, String.toList_append, String.toList_ofList (l := text)]
      rfl
    have hfragment : ∀ c ∈ request.uri.toList, decide (c ≠ '#') = true := by
      intro c hc
      rw [hwhole, ← List.singleton_append, ← List.append_assoc, ← List.append_assoc] at hc
      refine decide_eq_true ?_
      rintro rfl
      rcases List.mem_append.1 hc with hc | hc
      · exact absurd hc (by decide)
      · exact hencodes.not_mem.1 hc
    rw [targetOf, List.takeWhile_eq_self_iff.2 hfragment, hwhole]
    rfl
  refine ⟨h.method, ?_, ?_⟩
  · rw [pathOf, htarget]
    rfl
  · rw [queryOf, htarget]
    exact Form.field?_encode hencodes

end TokenSearch.Http
