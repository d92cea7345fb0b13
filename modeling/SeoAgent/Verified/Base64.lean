import Mathlib.Data.List.Basic

/-!
# Base 64 with the URL-safe alphabet

`encode` is `base64.urlsafe_b64encode`, with padding. `decode` is
`base64.urlsafe_b64decode`: characters outside the alphabet are skipped, `+` and `/`
stand for `-` and `_`, and what follows a complete padding is not read.

## Main results

* `decode_encode` — decoding gives back the bytes that were encoded.
-/

namespace SeoAgent.Verified.Base64

/-- The characters of the alphabet, by value. -/
def alphabet : List Char :=
  "ABCDEFGHIJKLMNOPQRSTUVWXYZabcdefghijklmnopqrstuvwxyz0123456789-_".toList

/-- The character of a value below 64. -/
def sextetChar (n : Nat) : Char := alphabet.getD n '='

/-- The value of a character. -/
def sextet? (c : Char) : Option Nat :=
  if c = '+' then some 62 else if c = '/' then some 63 else alphabet.idxOf? c

set_option maxRecDepth 4000 in
theorem sextet?_sextetChar : ∀ n < 64, sextet? (sextetChar n) = some n := by decide

set_option maxRecDepth 4000 in
theorem sextetChar_ne_pad : ∀ n < 64, sextetChar n ≠ '=' := by decide

/-! ## Encoding -/

/-- Three bytes make four characters; a shorter last group is padded. -/
def encode : List UInt8 → List Char
  | [] => []
  | [a] => [sextetChar (a.toNat / 4), sextetChar (a.toNat % 4 * 16), '=', '=']
  | [a, b] =>
      [sextetChar (a.toNat / 4), sextetChar (a.toNat % 4 * 16 + b.toNat / 16),
        sextetChar (b.toNat % 16 * 4), '=']
  | a :: b :: c :: rest =>
      sextetChar (a.toNat / 4) :: sextetChar (a.toNat % 4 * 16 + b.toNat / 16) ::
        sextetChar (b.toNat % 16 * 4 + c.toNat / 64) :: sextetChar (c.toNat % 64) ::
          encode rest

/-! ## Decoding -/

/-- Decoding inside a group of four: how many characters of it have been read, the
bits left over of them, and how many pads. -/
def decodeFrom : (quad left pads : Nat) → List Char → Option (List UInt8)
  | quad, _, _, [] => if quad = 0 then some [] else none
  | quad, left, pads, c :: cs =>
      if c = '=' then
        if 2 ≤ quad then
          if 4 ≤ quad + (pads + 1) then some [] else decodeFrom quad left (pads + 1) cs
        else decodeFrom quad left pads cs
      else
        match sextet? c with
        | none => decodeFrom quad left pads cs
        | some v =>
            if quad = 0 then decodeFrom 1 v 0 cs
            else if quad = 1 then
              (decodeFrom 2 (v % 16) 0 cs).map (UInt8.ofNat (left * 4 + v / 16) :: ·)
            else if quad = 2 then
              (decodeFrom 3 (v % 4) 0 cs).map (UInt8.ofNat (left * 16 + v / 4) :: ·)
            else (decodeFrom 0 0 0 cs).map (UInt8.ofNat (left * 64 + v) :: ·)

def decode (cs : List Char) : Option (List UInt8) := decodeFrom 0 0 0 cs

section Steps
variable {left pads n : Nat} {cs : List Char}

theorem decodeFrom_sextet (quad : Nat) (hn : n < 64) :
    decodeFrom quad left pads (sextetChar n :: cs) =
      if quad = 0 then decodeFrom 1 n 0 cs
      else if quad = 1 then
        (decodeFrom 2 (n % 16) 0 cs).map (UInt8.ofNat (left * 4 + n / 16) :: ·)
      else if quad = 2 then
        (decodeFrom 3 (n % 4) 0 cs).map (UInt8.ofNat (left * 16 + n / 4) :: ·)
      else (decodeFrom 0 0 0 cs).map (UInt8.ofNat (left * 64 + n) :: ·) := by
  rw [decodeFrom, if_neg (sextetChar_ne_pad n hn), sextet?_sextetChar n hn]

theorem decodeFrom_first (hn : n < 64) :
    decodeFrom 0 left pads (sextetChar n :: cs) = decodeFrom 1 n 0 cs := by
  rw [decodeFrom_sextet 0 hn, if_pos rfl]

theorem decodeFrom_second (hn : n < 64) :
    decodeFrom 1 left pads (sextetChar n :: cs) =
      (decodeFrom 2 (n % 16) 0 cs).map (UInt8.ofNat (left * 4 + n / 16) :: ·) := by
  rw [decodeFrom_sextet 1 hn, if_neg (by decide), if_pos rfl]

theorem decodeFrom_third (hn : n < 64) :
    decodeFrom 2 left pads (sextetChar n :: cs) =
      (decodeFrom 3 (n % 4) 0 cs).map (UInt8.ofNat (left * 16 + n / 4) :: ·) := by
  rw [decodeFrom_sextet 2 hn, if_neg (by decide), if_neg (by decide), if_pos rfl]

theorem decodeFrom_fourth (hn : n < 64) :
    decodeFrom 3 left pads (sextetChar n :: cs) =
      (decodeFrom 0 0 0 cs).map (UInt8.ofNat (left * 64 + n) :: ·) := by
  rw [decodeFrom_sextet 3 hn, if_neg (by decide), if_neg (by decide), if_neg (by decide)]

theorem decodeFrom_pads : decodeFrom 2 left 0 ['=', '='] = some [] := by
  simp [decodeFrom]

theorem decodeFrom_pad : decodeFrom 3 left 0 ['='] = some [] := by
  simp [decodeFrom]

end Steps

/-- The first byte of a group. -/
theorem ofNat_first (a : UInt8) {m : Nat} (hm : m < 16) :
    UInt8.ofNat (a.toNat / 4 * 4 + (a.toNat % 4 * 16 + m) / 16) = a := by
  have h : a.toNat / 4 * 4 + (a.toNat % 4 * 16 + m) / 16 = a.toNat := by omega
  rw [h, UInt8.ofNat_toNat]

/-- The second byte of a group. -/
theorem ofNat_second (a b : UInt8) {m : Nat} (hm : m < 4) :
    UInt8.ofNat ((a.toNat % 4 * 16 + b.toNat / 16) % 16 * 16 +
      (b.toNat % 16 * 4 + m) / 4) = b := by
  have hb := b.toNat_lt
  have h : (a.toNat % 4 * 16 + b.toNat / 16) % 16 * 16 + (b.toNat % 16 * 4 + m) / 4 =
      b.toNat := by omega
  rw [h, UInt8.ofNat_toNat]

/-- The third byte of a group. -/
theorem ofNat_third (b c : UInt8) :
    UInt8.ofNat ((b.toNat % 16 * 4 + c.toNat / 64) % 4 * 64 + c.toNat % 64) = c := by
  have hc := c.toNat_lt
  have h : (b.toNat % 16 * 4 + c.toNat / 64) % 4 * 64 + c.toNat % 64 = c.toNat := by omega
  rw [h, UInt8.ofNat_toNat]

/-- Decoding gives back the bytes that were encoded. -/
theorem decode_encode (bs : List UInt8) : decode (encode bs) = some bs := by
  unfold decode
  induction bs using encode.induct with
  | case1 => rfl
  | case2 a =>
      have ha := a.toNat_lt
      rw [encode, decodeFrom_first (by omega), decodeFrom_second (by omega),
        decodeFrom_pads, Option.map_some]
      exact congrArg some (congrArg (· :: []) (ofNat_first a (m := 0) (by omega)))
  | case3 a b =>
      have ha := a.toNat_lt
      have hb := b.toNat_lt
      rw [encode, decodeFrom_first (by omega), decodeFrom_second (by omega),
        decodeFrom_third (by omega), decodeFrom_pad, Option.map_some, Option.map_some,
        ofNat_first a (by omega)]
      exact congrArg some (congrArg (a :: [·]) (ofNat_second a b (m := 0) (by omega)))
  | case4 a b c rest ih =>
      have ha := a.toNat_lt
      have hb := b.toNat_lt
      have hc := c.toNat_lt
      rw [encode, decodeFrom_first (by omega), decodeFrom_second (by omega),
        decodeFrom_third (by omega), decodeFrom_fourth (by omega), ih, Option.map_some,
        Option.map_some, Option.map_some, ofNat_first a (by omega),
        ofNat_second a b (by omega), ofNat_third]

end SeoAgent.Verified.Base64
