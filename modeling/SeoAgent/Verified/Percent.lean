import Mathlib.Data.List.Basic
import Mathlib.Data.List.Infix
import Mathlib.Tactic.IntervalCases

/-!
# Percent-encoding

A character that is not safe is written as the bytes of its UTF-8, each as a percent sign and
two hexadecimal digits in upper case. Which characters are safe is given.

## Main results

* `encode_append`, `encode_self` — the encoding goes character by character and leaves safe
  text as it is.
* `encode_encode` — what is encoded stays as it is, when percent signs and hexadecimal digits
  are safe.
-/

namespace SeoAgent.Verified.Percent

/-- A hexadecimal digit in upper case. -/
def hexDigit (n : Nat) : Char := Char.ofNat (if n < 10 then 48 + n else 55 + n)

/-- A byte as it is written. -/
def encodeByte (b : UInt8) : List Char := ['%', hexDigit (b.toNat / 16), hexDigit (b.toNat % 16)]

/-- A character as it is written. -/
def encodeChar (c : Char) : List Char := (String.utf8EncodeChar c).flatMap encodeByte

variable (safe : Char → Bool)

/-- A text with the characters that are not safe encoded. -/
def encode (s : List Char) : List Char :=
  s.flatMap fun c => if safe c then [c] else encodeChar c

/-- A percent sign or a hexadecimal digit in upper case. -/
def isCode (c : Char) : Bool :=
  c == '%' || ('0'.toNat ≤ c.toNat && c.toNat ≤ '9'.toNat) ||
    ('A'.toNat ≤ c.toNat && c.toNat ≤ 'F'.toNat)

theorem isCode_hexDigit {n : Nat} (h : n < 16) : isCode (hexDigit n) = true := by
  interval_cases n <;> decide

theorem isCode_ascii {c : Char} (h : isCode c = true) : c.toNat < 128 := by
  simp only [isCode, Bool.or_eq_true, Bool.and_eq_true, decide_eq_true_eq, beq_iff_eq] at h
  have h9 : '9'.toNat = 57 := rfl
  have hF : 'F'.toNat = 70 := rfl
  rcases h with (rfl | h) | h
  · decide
  · omega
  · omega

theorem isCode_of_mem_encodeByte {b : UInt8} {c : Char} (h : c ∈ encodeByte b) :
    isCode c = true := by
  have hb : b.toNat < 256 := b.toNat_lt
  simp only [encodeByte, List.mem_cons, List.not_mem_nil, or_false] at h
  rcases h with rfl | rfl | rfl
  · decide
  · exact isCode_hexDigit (by omega)
  · exact isCode_hexDigit (by omega)

/-- A character is written in percent signs and hexadecimal digits. -/
theorem isCode_of_mem_encodeChar {c d : Char} (h : d ∈ encodeChar c) : isCode d = true := by
  obtain ⟨b, -, hd⟩ := List.mem_flatMap.mp h
  exact isCode_of_mem_encodeByte hd

/-- What a character is written as begins with a percent sign. -/
theorem encodeChar_eq_cons (c : Char) : ∃ digits, encodeChar c = '%' :: digits := by
  unfold encodeChar
  cases h : String.utf8EncodeChar c with
  | nil => exact absurd h String.utf8EncodeChar_ne_nil
  | cons b bytes => exact ⟨_, rfl⟩

variable {safe} {s t : List Char} {c : Char}

@[simp] theorem encode_nil : encode safe [] = [] := rfl

theorem encode_cons (c : Char) (s : List Char) :
    encode safe (c :: s) = (if safe c then [c] else encodeChar c) ++ encode safe s := rfl

theorem encode_append (s t : List Char) : encode safe (s ++ t) = encode safe s ++ encode safe t :=
  List.flatMap_append

theorem encode_cons_safe (h : safe c = true) (s : List Char) :
    encode safe (c :: s) = c :: encode safe s := by
  rw [encode_cons, if_pos h]
  rfl

theorem encode_cons_unsafe (h : safe c = false) (s : List Char) :
    encode safe (c :: s) = encodeChar c ++ encode safe s := by
  rw [encode_cons, if_neg (by rw [h]; exact Bool.false_ne_true)]

/-- Safe text is left as it is. -/
theorem encode_self (h : ∀ c ∈ s, safe c = true) : encode safe s = s := by
  induction s with
  | nil => rfl
  | cons c s ih =>
      rw [encode_cons_safe (h c List.mem_cons_self), ih fun d hd => h d (List.mem_cons_of_mem _ hd)]

/-- What is encoded is safe, when percent signs and hexadecimal digits are. -/
theorem safe_of_mem_encode (hcode : ∀ c, isCode c = true → safe c = true)
    (h : c ∈ encode safe s) : safe c = true := by
  obtain ⟨d, -, hc⟩ := List.mem_flatMap.mp h
  split at hc
  · next hd =>
      rw [List.mem_singleton.mp hc]
      exact hd
  · exact hcode c (isCode_of_mem_encodeChar hc)

theorem encode_encode (hcode : ∀ c, isCode c = true → safe c = true) (s : List Char) :
    encode safe (encode safe s) = encode safe s :=
  encode_self fun _ hc => safe_of_mem_encode hcode hc

/-- A character that is not safe stands encoded in the encoded text. -/
theorem infix_encode (h : c ∈ s) (hc : safe c = false) : encodeChar c <:+: encode safe s := by
  obtain ⟨before, after, rfl⟩ := List.append_of_mem h
  rw [encode_append, encode_cons_unsafe hc]
  exact ⟨encode safe before, encode safe after, by rw [List.append_assoc]⟩

end SeoAgent.Verified.Percent
