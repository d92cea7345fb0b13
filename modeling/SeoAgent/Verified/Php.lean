/-!
# Texts in PHP

The string functions of PHP and of WordPress that store a text: what is trimmed
and collapsed before, and the slashes `update_post_meta` strips from what it is
given. A text without a backslash is stored as it is (`stripslashes_of_plain`).
-/

namespace SeoAgent.Verified.Php

/-! ## White space -/

/-- `\s` of a pattern with the modifier `u`. -/
def isSpace (c : Char) : Bool :=
  let n := c.toNat
  (9 ≤ n && n ≤ 13) || n == 32 || n == 0x85 || n == 0xa0 || n == 0x1680 ||
    n == 0x180e || (0x2000 ≤ n && n ≤ 0x200a) || n == 0x2028 || n == 0x2029 ||
    n == 0x202f || n == 0x205f || n == 0x3000

/-- Every run of white space becomes one space. -/
def collapseChars : List Char → List Char
  | [] => []
  | c :: cs =>
      if isSpace c then
        match cs with
        | d :: _ => if isSpace d then collapseChars cs else ' ' :: collapseChars cs
        | [] => [' ']
      else c :: collapseChars cs

/-- `preg_replace('/\s+/u', ' ', $s)`. -/
def collapse (s : String) : String := String.ofList (collapseChars s.toList)

/-- What `trim` takes away at both ends. -/
def isTrimmed (c : Char) : Bool :=
  let n := c.toNat
  n == 32 || n == 9 || n == 10 || n == 13 || n == 0 || n == 11

/-- `trim($s)`. -/
def trim (s : String) : String :=
  String.ofList
    (((s.toList.dropWhile isTrimmed).reverse.dropWhile isTrimmed).reverse)

/-! ## Slashes -/

/-- A backslash goes, and what follows it stays; `\0` is the null character. -/
def stripChars : List Char → List Char
  | [] => []
  | '\\' :: '0' :: cs => Char.ofNat 0 :: stripChars cs
  | '\\' :: c :: cs => c :: stripChars cs
  | ['\\'] => []
  | c :: cs => c :: stripChars cs

/-- `stripslashes($s)`. -/
def stripslashes (s : String) : String := String.ofList (stripChars s.toList)

/-- A text that has no backslash. -/
def Plain (s : String) : Prop := '\\' ∉ s.toList

instance (s : String) : Decidable (Plain s) := inferInstanceAs (Decidable (¬_))

theorem stripChars_of_plain {cs : List Char} (h : '\\' ∉ cs) : stripChars cs = cs := by
  induction cs with
  | nil => rfl
  | cons c cs ih =>
      obtain ⟨hc, hcs⟩ := not_or.mp (mt List.mem_cons.mpr h)
      unfold stripChars
      split
      · next heq => cases heq
      · next heq => cases heq; exact absurd rfl hc
      · next heq => cases heq; exact absurd rfl hc
      · next heq => cases heq; exact absurd rfl hc
      · next heq => cases heq; rw [ih hcs]

theorem stripslashes_of_plain {s : String} (h : Plain s) : stripslashes s = s := by
  rw [stripslashes, stripChars_of_plain h, String.ofList_toList]

example : stripslashes "a\\\\b\\'" = "a\\b'" := by decide

end SeoAgent.Verified.Php
