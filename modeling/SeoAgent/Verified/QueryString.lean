import Mathlib
import SeoAgent.Verified.JsonText
import SeoAgent.Verified.Percent

/-!
# Query strings

`parse_qsl`, which keeps blank values, and `urlencode` of `urllib.parse`. A name or a value is
written with a plus sign for a space and percent signs for what is not safe. Reading takes back
the plus signs, then the percent signs as bytes of UTF-8, in which a mark replaces what no
character begins with.

## Main results

* `decode_append` — a character is decoded from the bytes that encode it.
* `unquote_encode` — what is encoded is read back.
* `parseQsl_urlencode` — names and values are read back from their query string.
-/

namespace SeoAgent.Verified.QueryString

open Percent

/-! ## UTF-8 -/

/-- The byte may follow the first one in a character of three or four bytes. -/
def fitsSecond (first second : UInt8) : Bool :=
  let (low, high) : Nat × Nat :=
    if first = 0xE0 then (0xA0, 0xBF)
    else if first = 0xED then (0x80, 0x9F)
    else if first = 0xF0 then (0x90, 0xBF)
    else if first = 0xF4 then (0x80, 0x8F)
    else (0x80, 0xBF)
  low ≤ second.toNat && second.toNat ≤ high

/-- How many bytes after the first one go with it, when no character begins with them. -/
def spoilt : List UInt8 → Nat
  | first :: second :: rest =>
      if 0xE0 ≤ first.toNat ∧ first.toNat ≤ 0xF4 ∧ fitsSecond first second = true then
        match rest with
        | third :: _ =>
            if 0xF0 ≤ first.toNat ∧ 0x80 ≤ third.toNat ∧ third.toNat ≤ 0xBF then 2 else 1
        | [] => 1
      else 0
  | _ => 0

/-- Decoding goes on after the bytes that are read already. -/
def decodeFrom : Nat → List UInt8 → List Char
  | _, [] => []
  | n + 1, _ :: bytes => decodeFrom n bytes
  | 0, b :: bytes =>
      match (b :: bytes).toByteArray.utf8DecodeChar? 0 with
      | some c => c :: decodeFrom (c.utf8Size - 1) bytes
      | none => '\uFFFD' :: decodeFrom (spoilt (b :: bytes)) bytes

/-- `bytes.decode("utf-8", "replace")`. -/
def decode (bytes : List UInt8) : List Char := decodeFrom 0 bytes

variable {safe : Char → Bool} {s : List Char} {bytes : List UInt8} {c : Char}

theorem decodeFrom_append (tail : List UInt8) :
    decodeFrom tail.length (tail ++ bytes) = decode bytes := by
  induction tail with
  | nil => rfl
  | cons b tail ih => exact ih

/-- A character is decoded from the bytes that encode it. -/
theorem decode_append (c : Char) (bytes : List UInt8) :
    decode (String.utf8EncodeChar c ++ bytes) = c :: decode bytes := by
  have hfront : (String.utf8EncodeChar c ++ bytes).toByteArray.utf8DecodeChar? 0 = some c := by
    rw [List.toByteArray_append]
    exact ByteArray.utf8DecodeChar?_utf8EncodeChar_append
  have hlength := String.length_utf8EncodeChar c
  cases hencode : String.utf8EncodeChar c with
  | nil => exact absurd hencode String.utf8EncodeChar_ne_nil
  | cons b tail =>
      rw [hencode, List.cons_append] at hfront
      rw [hencode, List.length_cons] at hlength
      have hskip : c.utf8Size - 1 = tail.length := by omega
      show decodeFrom 0 (b :: (tail ++ bytes)) = c :: decode bytes
      rw [decodeFrom, hfront]
      show c :: decodeFrom (c.utf8Size - 1) (tail ++ bytes) = _
      rw [hskip, decodeFrom_append]

/-- A text is decoded from the bytes that encode it. -/
theorem decode_utf8 (s : List Char) : decode (s.flatMap String.utf8EncodeChar) = s := by
  induction s with
  | nil => rfl
  | cons c s ih => rw [List.flatMap_cons, decode_append, ih]

/-! ## Percent signs -/

/-- `unquote_to_bytes` of ASCII text. -/
def unquoteToBytes : List Char → List UInt8
  | '%' :: high :: low :: s =>
      match JsonText.hexVal high, JsonText.hexVal low with
      | some x, some y => UInt8.ofNat (16 * x + y) :: unquoteToBytes s
      | _, _ => UInt8.ofNat '%'.toNat :: unquoteToBytes (high :: low :: s)
  | c :: s => UInt8.ofNat c.toNat :: unquoteToBytes s
  | [] => []

/-- Runs of ASCII are decoded, what is between them stays. -/
def unquoteParts : List Char → List Char → List Char
  | run, [] => decode (unquoteToBytes run.reverse)
  | run, c :: s =>
      if c.toNat < 128 then unquoteParts (c :: run) s
      else decode (unquoteToBytes run.reverse) ++ c :: unquoteParts [] s

/-- `unquote`. -/
def unquote (s : List Char) : List Char := if '%' ∈ s then unquoteParts [] s else s

theorem unquoteParts_ascii {run : List Char} (h : ∀ c ∈ s, c.toNat < 128) :
    unquoteParts run s = decode (unquoteToBytes (run.reverse ++ s)) := by
  induction s generalizing run with
  | nil => rw [unquoteParts, List.append_nil]
  | cons c s ih =>
      rw [unquoteParts, if_pos (h c List.mem_cons_self),
        ih fun d hd => h d (List.mem_cons_of_mem _ hd), List.reverse_cons, List.append_assoc]
      rfl

theorem hexVal_hexDigit {n : Nat} (h : n < 16) : JsonText.hexVal (hexDigit n) = some n := by
  interval_cases n <;> decide

theorem unquoteToBytes_encodeByte (b : UInt8) (s : List Char) :
    unquoteToBytes (encodeByte b ++ s) = b :: unquoteToBytes s := by
  have hb : b.toNat < 256 := b.toNat_lt
  have hsum : 16 * (b.toNat / 16) + b.toNat % 16 = b.toNat := Nat.div_add_mod _ _
  show unquoteToBytes ('%' :: hexDigit (b.toNat / 16) :: hexDigit (b.toNat % 16) :: s) = _
  rw [unquoteToBytes, hexVal_hexDigit (by omega), hexVal_hexDigit (by omega)]
  show UInt8.ofNat (16 * (b.toNat / 16) + b.toNat % 16) :: unquoteToBytes s = _
  rw [hsum, UInt8.ofNat_toNat]

theorem unquoteToBytes_encodeChar (c : Char) (s : List Char) :
    unquoteToBytes (encodeChar c ++ s) = String.utf8EncodeChar c ++ unquoteToBytes s := by
  unfold encodeChar
  induction String.utf8EncodeChar c with
  | nil => rfl
  | cons b bytes ih =>
      rw [List.flatMap_cons, List.append_assoc, unquoteToBytes_encodeByte, ih]
      rfl

theorem unquoteToBytes_cons (h : c ≠ '%') (s : List Char) :
    unquoteToBytes (c :: s) = UInt8.ofNat c.toNat :: unquoteToBytes s := by
  rw [unquoteToBytes]
  rintro high low rest rfl
  exact absurd rfl h

theorem utf8EncodeChar_ascii (h : c.toNat < 128) :
    String.utf8EncodeChar c = [UInt8.ofNat c.toNat] := by
  have hsize : c.utf8Size = 1 := by
    rw [Char.utf8Size_eq_one_iff]
    exact UInt32.le_iff_toNat_le.mpr (Nat.le_of_lt_succ h)
  rw [String.utf8EncodeChar_eq_singleton hsize]
  rfl

theorem unquoteToBytes_encode (hsafe : ∀ c, safe c = true → c.toNat < 128 ∧ c ≠ '%')
    (s : List Char) : unquoteToBytes (encode safe s) = s.flatMap String.utf8EncodeChar := by
  induction s with
  | nil => rfl
  | cons c s ih =>
      rw [List.flatMap_cons]
      cases hc : safe c with
      | true =>
          rw [encode_cons_safe hc, unquoteToBytes_cons (hsafe c hc).2, ih,
            utf8EncodeChar_ascii (hsafe c hc).1]
          rfl
      | false => rw [ encode_cons_unsafe hc, unquoteToBytes_encodeChar, ih]

theorem encode_ascii (hsafe : ∀ c, safe c = true → c.toNat < 128) (h : c ∈ encode safe s) :
    c.toNat < 128 := by
  obtain ⟨d, -, hc⟩ := List.mem_flatMap.mp h
  split at hc
  · next hd =>
      rw [List.mem_singleton.mp hc]
      exact hsafe d hd
  · exact isCode_ascii (isCode_of_mem_encodeChar hc)

theorem encode_of_no_percent (h : '%' ∉ encode safe s) : encode safe s = s := by
  refine encode_self fun c hc => ?_
  by_contra hunsafe
  obtain ⟨digits, hcons⟩ := encodeChar_eq_cons c
  have hmem : '%' ∈ encodeChar c := hcons ▸ List.mem_cons_self
  exact h ((infix_encode hc (Bool.eq_false_iff.mpr hunsafe)).subset hmem)

/-- What is encoded is read back. -/
theorem unquote_encode (hsafe : ∀ c, safe c = true → c.toNat < 128 ∧ c ≠ '%') (s : List Char) :
    unquote (encode safe s) = s := by
  unfold unquote
  split
  · rw [unquoteParts_ascii fun c hc => encode_ascii (fun d hd => (hsafe d hd).1) hc,
      List.reverse_nil, List.nil_append, unquoteToBytes_encode hsafe, decode_utf8]
  · next hnone => exact encode_of_no_percent hnone

/-! ## Names and values -/

/-- `_ALWAYS_SAFE`. -/
def isAlwaysSafe (c : Char) : Bool := c.isAlphanum || c == '_' || c == '.' || c == '-' || c == '~'

/-- `quote_plus`. -/
def quotePlus (s : List Char) : List Char :=
  (encode (fun c => isAlwaysSafe c || c == ' ') s).map fun c => if c = ' ' then '+' else c

/-- `replace("+", " ")`. -/
def unplus (s : List Char) : List Char := s.map fun c => if c = '+' then ' ' else c

/-- A name and a value of a query. -/
abbrev Pair := List Char × List Char

/-- A name and a value as they are written. -/
def writePair (pair : Pair) : List Char := quotePlus pair.1 ++ '=' :: quotePlus pair.2

/-- A name and a value as they are read. -/
def readPair (text : List Char) : Pair :=
  (unquote (unplus (text.takeWhile (· ≠ '='))),
    unquote (unplus ((text.dropWhile (· ≠ '=')).drop 1)))

/-- `urlencode`. -/
def urlencode (pairs : List Pair) : List Char := ['&'].intercalate (pairs.map writePair)

/-- `parse_qsl` with `keep_blank_values`. -/
def parseQsl (query : List Char) : List Pair :=
  ((query.splitOn '&').filter (!·.isEmpty)).map readPair

/-- What names and values are written with. -/
def isWritten (c : Char) : Bool := isAlwaysSafe c || c == '+' || c == '%'

theorem isAlwaysSafe_ascii (h : isAlwaysSafe c = true) : c.toNat < 128 ∧ c ≠ '%' := by
  simp only [isAlwaysSafe, Char.isAlphanum, Char.isAlpha, Char.isUpper, Char.isLower,
    Char.isDigit, Bool.or_eq_true, Bool.and_eq_true, decide_eq_true_eq, beq_iff_eq,
    UInt32.le_iff_toNat_le, ge_iff_le] at h
  have hval : c.toNat = c.val.toNat := rfl
  have hZ : 'Z'.val.toNat = 90 := rfl
  have hz : 'z'.val.toNat = 122 := rfl
  have h9 : '9'.val.toNat = 57 := rfl
  have hA : 'A'.val.toNat = 65 := rfl
  have ha : 'a'.val.toNat = 97 := rfl
  have h0 : '0'.val.toNat = 48 := rfl
  rcases h with (((h | rfl) | rfl) | rfl) | rfl
  · refine ⟨by omega, ?_⟩
    rintro rfl
    have hpercent : '%'.val.toNat = 37 := rfl
    omega
  all_goals exact ⟨by decide, by decide⟩

theorem isWritten_graphic (h : isWritten c = true) : 33 ≤ c.toNat ∧ c.toNat < 128 := by
  simp only [isWritten, isAlwaysSafe, Char.isAlphanum, Char.isAlpha, Char.isUpper, Char.isLower,
    Char.isDigit, Bool.or_eq_true, Bool.and_eq_true, decide_eq_true_eq, beq_iff_eq,
    UInt32.le_iff_toNat_le, ge_iff_le] at h
  have hval : c.toNat = c.val.toNat := rfl
  have hZ : 'Z'.val.toNat = 90 := rfl
  have hz : 'z'.val.toNat = 122 := rfl
  have h9 : '9'.val.toNat = 57 := rfl
  have hA : 'A'.val.toNat = 65 := rfl
  have ha : 'a'.val.toNat = 97 := rfl
  have h0 : '0'.val.toNat = 48 := rfl
  rcases h with (((((h | rfl) | rfl) | rfl) | rfl) | rfl) | rfl
  · omega
  all_goals decide

theorem isAlwaysSafe_of_isCode (h : isCode c = true) : isAlwaysSafe c = true ∨ c = '%' := by
  simp only [isCode, Bool.or_eq_true, Bool.and_eq_true, decide_eq_true_eq, beq_iff_eq] at h
  rcases h with (h | h) | h
  · exact .inr h
  · refine .inl ?_
    simp only [isAlwaysSafe, Char.isAlphanum, Char.isDigit, Bool.or_eq_true, Bool.and_eq_true,
      decide_eq_true_eq, UInt32.le_iff_toNat_le, ge_iff_le]
    exact .inl (.inl (.inl (.inl (.inr h))))
  · refine .inl ?_
    simp only [isAlwaysSafe, Char.isAlphanum, Char.isAlpha, Char.isUpper, Bool.or_eq_true,
      decide_eq_true_eq, UInt32.le_iff_toNat_le, ge_iff_le]
    have hF : 'F'.toNat = 70 := rfl
    have hZ : 'Z'.val.toNat = 90 := rfl
    have hval : c.toNat = c.val.toNat := rfl
    exact .inl (.inl (.inl (.inl (.inl (.inl ⟨h.1, by omega⟩)))))

/-- A name or a value is written with safe characters, plus and percent signs. -/
theorem isWritten_quotePlus (h : c ∈ quotePlus s) : isWritten c = true := by
  obtain ⟨d, hd, rfl⟩ := List.mem_map.mp h
  obtain ⟨e, -, hde⟩ := List.mem_flatMap.mp hd
  simp only [isWritten, Bool.or_eq_true, beq_iff_eq]
  split
  · exact .inl (.inr rfl)
  · next hspace =>
      split at hde
      · next hsafe =>
          rw [List.mem_singleton.mp hde] at hspace ⊢
          rw [Bool.or_eq_true, beq_iff_eq] at hsafe
          exact .inl (.inl (hsafe.resolve_right hspace))
      · rcases isAlwaysSafe_of_isCode (isCode_of_mem_encodeChar hde) with hsafe | hpercent
        · exact .inl (.inl hsafe)
        · exact .inr hpercent

theorem not_mem_quotePlus {d : Char} (hd : isWritten d = false) (s : List Char) :
    d ∉ quotePlus s := fun hmem => by
  rw [isWritten_quotePlus hmem] at hd
  cases hd

theorem unplus_quotePlus (s : List Char) :
    unplus (quotePlus s) = encode (fun c => isAlwaysSafe c || c == ' ') s := by
  unfold unplus quotePlus
  rw [List.map_map]
  refine (List.map_congr_left fun c hc => ?_).trans (List.map_id _)
  have hplus : c ≠ '+' := by
    rintro rfl
    obtain ⟨d, -, hd⟩ := List.mem_flatMap.mp hc
    split at hd
    · next hsafe =>
        rw [← List.mem_singleton.mp hd] at hsafe
        revert hsafe
        decide
    · exact absurd (isCode_of_mem_encodeChar hd) (by decide)
  simp only [Function.comp, id]
  by_cases hspace : c = ' '
  · rw [if_pos hspace, if_pos rfl, hspace]
  · rw [if_neg hspace, if_neg hplus]

/-- A name or a value is read back. -/
theorem unquote_unplus (s : List Char) : unquote (unplus (quotePlus s)) = s := by
  rw [unplus_quotePlus]
  refine unquote_encode (fun c hc => ?_) s
  rw [Bool.or_eq_true, beq_iff_eq] at hc
  rcases hc with hc | rfl
  · exact isAlwaysSafe_ascii hc
  · exact ⟨by decide, by decide⟩

theorem readPair_writePair (pair : Pair) : readPair (writePair pair) = pair := by
  have hname : ∀ c ∈ quotePlus pair.1, decide (c ≠ '=') = true := fun c hc =>
    decide_eq_true fun heq => not_mem_quotePlus (by decide) _ (heq ▸ hc)
  unfold readPair writePair
  rw [List.takeWhile_append_of_pos hname, List.dropWhile_append_of_pos hname,
    List.takeWhile_cons_of_neg (by decide), List.dropWhile_cons_of_neg (by decide),
    List.append_nil, unquote_unplus, List.drop_succ_cons, List.drop_zero, unquote_unplus]

theorem not_mem_writePair (pair : Pair) : '&' ∉ writePair pair := by
  unfold writePair
  rw [List.mem_append, List.mem_cons, not_or, not_or]
  exact ⟨not_mem_quotePlus (by decide) _, by decide, not_mem_quotePlus (by decide) _⟩

theorem writePair_isEmpty (pair : Pair) : (writePair pair).isEmpty = false := by
  unfold writePair
  cases quotePlus pair.1 with
  | nil => rfl
  | cons c name => rfl

/-- Names and values are read back from their query string. -/
theorem parseQsl_urlencode (pairs : List Pair) : parseQsl (urlencode pairs) = pairs := by
  cases hpairs : pairs with
  | nil => rfl
  | cons pair others =>
      rw [← hpairs]
      have hsplit : (urlencode pairs).splitOn '&' = pairs.map writePair := by
        refine List.splitOn_intercalate '&' (fun text htext => ?_) (by rw [hpairs]; exact nofun)
        obtain ⟨p, -, rfl⟩ := List.mem_map.mp htext
        exact not_mem_writePair p
      have hkept : (pairs.map writePair).filter (!·.isEmpty) = pairs.map writePair := by
        rw [List.filter_eq_self]
        intro text htext
        obtain ⟨p, -, rfl⟩ := List.mem_map.mp htext
        rw [writePair_isEmpty]
        rfl
      unfold parseQsl
      rw [hsplit, hkept, List.map_map]
      exact (List.map_congr_left fun p _ => readPair_writePair p).trans (List.map_id _)

/-- A query string is empty when nothing is in it. -/
theorem urlencode_eq_nil {pairs : List Pair} : urlencode pairs = [] ↔ pairs = [] := by
  constructor
  · intro h
    rw [← parseQsl_urlencode pairs, h]
    rfl
  · rintro rfl
    rfl

theorem mem_intercalate {sep : Char} {texts : List (List Char)} (h : c ∈ [sep].intercalate texts) :
    c = sep ∨ ∃ text ∈ texts, c ∈ text := by
  induction texts with
  | nil => cases h
  | cons text texts ih =>
      cases texts with
      | nil =>
          rw [List.intercalate_singleton] at h
          exact .inr ⟨text, List.mem_cons_self, h⟩
      | cons next texts =>
          rw [List.intercalate_cons_cons, List.mem_append, List.mem_append] at h
          rcases h with (h | h) | h
          · exact .inr ⟨text, List.mem_cons_self, h⟩
          · exact .inl (List.mem_singleton.mp h)
          · rcases ih h with rfl | ⟨other, hother, hc⟩
            · exact .inl rfl
            · exact .inr ⟨other, List.mem_cons_of_mem _ hother, hc⟩

/-- What a query string is written with. -/
theorem mem_urlencode {pairs : List Pair} (h : c ∈ urlencode pairs) :
    isWritten c = true ∨ c = '=' ∨ c = '&' := by
  rcases mem_intercalate h with rfl | ⟨text, htext, hc⟩
  · exact .inr (.inr rfl)
  · obtain ⟨p, -, rfl⟩ := List.mem_map.mp htext
    unfold writePair at hc
    rw [List.mem_append, List.mem_cons] at hc
    rcases hc with hc | rfl | hc
    · exact .inl (isWritten_quotePlus hc)
    · exact .inr (.inl rfl)
    · exact .inl (isWritten_quotePlus hc)

end SeoAgent.Verified.QueryString
