import Mathlib.Data.List.Basic

/-!
# JSON texts

How a text stands inside a JSON document: `quote` is what `json.dumps` writes of a
`str` with `ensure_ascii=False`, and `readFrom` reads what follows an opening quote, as
`json.loads` does. An escape of a surrogate is refused, because no text has one.

`dumpsPair` and `loadsPair` are the documents that are an array of two texts.

## Main results

* `loadsPair_dumpsPair` — reading gives back the two texts that were written.
-/

namespace SeoAgent.Verified.JsonText

/-! ## Hexadecimal digits -/

def hexDigit (n : Nat) : Char := "0123456789abcdef".toList.getD n '0'

/-- The value of a digit, of either case. -/
def hexVal (c : Char) : Option Nat :=
  "0123456789abcdef".toList.idxOf? c.toLower

set_option maxRecDepth 4000 in
theorem hexVal_hexDigit : ∀ n < 16, hexVal (hexDigit n) = some n := by decide

/-! ## Writing -/

/-- What stands for a character. -/
def escapeChar (c : Char) : List Char :=
  if c = '"' then ['\\', '"']
  else if c = '\\' then ['\\', '\\']
  else if c = '\n' then ['\\', 'n']
  else if c = '\r' then ['\\', 'r']
  else if c = '\t' then ['\\', 't']
  else if c = Char.ofNat 8 then ['\\', 'b']
  else if c = Char.ofNat 12 then ['\\', 'f']
  else if c.toNat < 32 then
    ['\\', 'u', '0', '0', hexDigit (c.toNat / 16), hexDigit (c.toNat % 16)]
  else [c]

/-- A text between quotes. -/
def quote (cs : List Char) : List Char := '"' :: (cs.flatMap escapeChar ++ ['"'])

/-- `json.dumps([a, b], ensure_ascii=False, separators=(",", ":"))`. -/
def dumpsPair (a b : List Char) : List Char := '[' :: (quote a ++ ',' :: quote b ++ [']'])

/-! ## Reading -/

/-- Where the reader stands: between characters, after a backslash, or inside `\u` with
so many digits to go and the value of those read. -/
inductive Pending
  | plain
  | escaped
  | unicode (digits value : Nat)

/-- The character a short escape stands for. -/
def shortEscape (c : Char) : Option Char :=
  [('"', '"'), ('\\', '\\'), ('/', '/'), ('b', Char.ofNat 8), ('f', Char.ofNat 12),
    ('n', '\n'), ('r', '\r'), ('t', '\t')].lookup c

/-- Reads to the closing quote: the text, and what follows. -/
def readFrom : Pending → List Char → Option (List Char × List Char)
  | _, [] => none
  | .plain, c :: cs =>
      if c = '"' then some ([], cs)
      else if c = '\\' then readFrom .escaped cs
      else if c.toNat < 32 then none
      else (readFrom .plain cs).map fun x => (c :: x.1, x.2)
  | .escaped, c :: cs =>
      if c = 'u' then readFrom (.unicode 4 0) cs
      else
        match shortEscape c with
        | none => none
        | some d => (readFrom .plain cs).map fun x => (d :: x.1, x.2)
  | .unicode digits value, c :: cs =>
      match hexVal c with
      | none => none
      | some v =>
          if 1 < digits then readFrom (.unicode (digits - 1) (value * 16 + v)) cs
          else if (value * 16 + v).isValidChar then
            (readFrom .plain cs).map fun x => (Char.ofNat (value * 16 + v) :: x.1, x.2)
          else none

def isSpace (c : Char) : Bool := c = ' ' || c = '\t' || c = '\n' || c = '\r'

/-- White space, and then one character. -/
def expect (c : Char) (cs : List Char) : Option (List Char) :=
  match cs.dropWhile isSpace with
  | d :: rest => if d = c then some rest else none
  | [] => none

/-- A text between quotes. -/
def readQuoted (cs : List Char) : Option (List Char × List Char) :=
  (expect '"' cs).bind (readFrom .plain)

/-- `json.loads`, of a document that is an array of two texts. -/
def loadsPair (cs : List Char) : Option (List Char × List Char) := do
  let cs ← expect '[' cs
  let (a, cs) ← readQuoted cs
  let cs ← expect ',' cs
  let (b, cs) ← readQuoted cs
  let cs ← expect ']' cs
  if cs.dropWhile isSpace = [] then some (a, b) else none

/-! ## Reading what was written -/

theorem expect_self {c : Char} (hc : isSpace c = false) (cs : List Char) :
    expect c (c :: cs) = some cs := by
  rw [expect, List.dropWhile_cons, hc]
  exact if_pos rfl

theorem readFrom_short {c d : Char} (hu : d ≠ 'u') (hd : shortEscape d = some c)
    (rest : List Char) :
    readFrom .plain ('\\' :: d :: rest) =
      (readFrom .plain rest).map fun x => (c :: x.1, x.2) := by
  rw [readFrom, if_neg (by decide), if_pos rfl, readFrom, if_neg hu, hd]

/-- One digit of `\u`, before the last. -/
theorem readFrom_digit {digits value n : Nat} (hn : n < 16) (hd : 1 < digits)
    (rest : List Char) : readFrom (.unicode digits value) (hexDigit n :: rest) =
      readFrom (.unicode (digits - 1) (value * 16 + n)) rest := by
  rw [readFrom, hexVal_hexDigit n hn]
  exact if_pos hd

/-- The last digit of `\u`. -/
theorem readFrom_lastDigit {value n : Nat} (hn : n < 16)
    (hv : (value * 16 + n).isValidChar) (rest : List Char) :
    readFrom (.unicode 1 value) (hexDigit n :: rest) =
      (readFrom .plain rest).map fun x => (Char.ofNat (value * 16 + n) :: x.1, x.2) := by
  rw [readFrom, hexVal_hexDigit n hn]
  dsimp only
  rw [if_neg (Nat.lt_irrefl 1), if_pos hv]

theorem readFrom_unicode {c : Char} (hc : c.toNat < 32) (rest : List Char) :
    readFrom .plain ('\\' :: 'u' :: '0' :: '0' :: hexDigit (c.toNat / 16) ::
      hexDigit (c.toNat % 16) :: rest) =
      (readFrom .plain rest).map fun x => (c :: x.1, x.2) := by
  have hvalid : (c.toNat / 16 * 16 + c.toNat % 16).isValidChar := by
    rw [Nat.div_add_mod']
    exact c.valid
  have hzero : hexDigit 0 = '0' := by decide
  rw [readFrom, if_neg (by decide), if_pos rfl, readFrom, if_pos rfl, ← hzero,
    readFrom_digit (by decide) (by decide), readFrom_digit (by decide) (by decide),
    readFrom_digit (by omega) (by decide), readFrom_lastDigit (by omega) (by simpa using hvalid)]
  have hchar : Char.ofNat
      ((((0 * 16 + 0) * 16 + 0) * 16 + c.toNat / 16) * 16 + c.toNat % 16) = c := by
    simp [Nat.div_add_mod']
  rw [hchar]

/-- What stands for a character is read as that character. -/
theorem readFrom_escapeChar (c : Char) (rest : List Char) :
    readFrom .plain (escapeChar c ++ rest) =
      (readFrom .plain rest).map fun x => (c :: x.1, x.2) := by
  unfold escapeChar
  split
  · next h => subst h; exact readFrom_short (by decide) (by decide) rest
  split
  · next h => subst h; exact readFrom_short (by decide) (by decide) rest
  split
  · next h => subst h; exact readFrom_short (by decide) (by decide) rest
  split
  · next h => subst h; exact readFrom_short (by decide) (by decide) rest
  split
  · next h => subst h; exact readFrom_short (by decide) (by decide) rest
  split
  · next h => subst h; exact readFrom_short (by decide) (by decide) rest
  split
  · next h => subst h; exact readFrom_short (by decide) (by decide) rest
  split
  · next h => exact readFrom_unicode h rest
  · next hquote hslash _ _ _ _ _ hlow =>
      rw [List.singleton_append, readFrom, if_neg hquote, if_neg hslash, if_neg hlow]

theorem readFrom_escaped (cs rest : List Char) :
    readFrom .plain (cs.flatMap escapeChar ++ '"' :: rest) = some (cs, rest) := by
  induction cs with
  | nil => rfl
  | cons c cs ih =>
      rw [List.flatMap_cons, List.append_assoc, readFrom_escapeChar, ih, Option.map_some]

theorem readQuoted_quote (cs rest : List Char) :
    readQuoted (quote cs ++ rest) = some (cs, rest) := by
  rw [quote, List.cons_append, List.append_assoc, readQuoted, expect_self rfl]
  exact readFrom_escaped cs rest

/-- Reading gives back the two texts that were written. -/
theorem loadsPair_dumpsPair (a b : List Char) : loadsPair (dumpsPair a b) = some (a, b) := by
  have hfirst : readQuoted (quote a ++ (',' :: (quote b ++ [']']))) =
      some (a, ',' :: (quote b ++ [']'])) := readQuoted_quote a _
  have hsecond : readQuoted (quote b ++ [']']) = some (b, [']']) := readQuoted_quote b _
  have hdoc : dumpsPair a b = '[' :: (quote a ++ (',' :: (quote b ++ [']']))) := by
    simp [dumpsPair]
  rw [loadsPair, hdoc, expect_self rfl]
  simp only [Option.bind_eq_bind, Option.bind_some, hfirst, expect_self (c := ',') rfl,
    hsecond, expect_self (c := ']') rfl]
  rfl

end SeoAgent.Verified.JsonText
