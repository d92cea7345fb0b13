import Mathlib
import SeoAgent.Verified.Url

/-!
# Patterns of SQL

`LIKE` with a backslash as its escape character, and `ILIKE`, in which case does not count:
both sides are put in lower case first, character by character. What lower case makes of a
character beyond ASCII is given by a `CaseFold`.

## Main results

* `like_anywhere` — between two percent signs, escaped text is searched as it stands.
* `ilike_anywhere` — and case aside with `ILIKE`.
-/

namespace SeoAgent.Verified.Like

/-- A percent sign, an underscore, or the backslash that escapes them. -/
def isSpecial (c : Char) : Bool := c == '\\' || c == '%' || c == '_'

/-- `text LIKE pattern`. A pattern that ends with a lone backslash, which is an error, matches
nothing here. -/
def like : List Char → List Char → Bool
  | [], text => text.isEmpty
  | c :: pattern, text =>
      if c = '%' then text.tails.any (like pattern)
      else if c = '\\' then
        match pattern, text with
        | e :: pattern, d :: text => e == d && like pattern text
        | _, _ => false
      else
        match text with
        | d :: text => (c == '_' || c == d) && like pattern text
        | [] => false

/-- Text with a backslash before each special character. -/
def escape (s : List Char) : List Char := s.flatMap fun c => if isSpecial c then ['\\', c] else [c]

/-- A pattern that searches a text. -/
def anywhere (s : List Char) : List Char := '%' :: (escape s ++ ['%'])

variable {s t pattern text : List Char} {c : Char}

theorem like_percent (pattern text : List Char) :
    like ('%' :: pattern) text = text.tails.any (like pattern) := by
  rw [like.eq_def]
  rfl

theorem like_percent_end (text : List Char) : like ['%'] text = true := by
  rw [like_percent, List.any_eq_true]
  exact ⟨[], (List.mem_tails [] text).mpr List.nil_suffix, rfl⟩

theorem escape_cons (c : Char) (s : List Char) :
    escape (c :: s) = (if isSpecial c then ['\\', c] else [c]) ++ escape s := rfl

/-- An escaped character stands for itself. -/
theorem like_escape_cons (c : Char) (s pattern text : List Char) :
    like (escape (c :: s) ++ pattern) text = true ↔
      ∃ rest, text = c :: rest ∧ like (escape s ++ pattern) rest = true := by
  have hone : like (escape (c :: s) ++ pattern) text =
      match text with
      | d :: rest => c == d && like (escape s ++ pattern) rest
      | [] => false := by
    rw [escape_cons]
    cases hspecial : isSpecial c with
    | true => cases text <;> rfl
    | false =>
        simp only [isSpecial, Bool.or_eq_false_iff, beq_eq_false_iff_ne] at hspecial
        obtain ⟨⟨hslash, hpercent⟩, hunder⟩ := hspecial
        rw [if_neg Bool.false_ne_true, List.append_assoc, List.singleton_append, like.eq_def]
        dsimp only
        rw [if_neg hpercent, if_neg hslash]
        cases text with
        | nil => rfl
        | cons d rest =>
            have hbeq : (c == '_') = false := beq_eq_false_iff_ne.mpr hunder
            dsimp only
            rw [hbeq, Bool.false_or]
  rw [hone]
  cases text with
  | nil => exact ⟨fun h => absurd h Bool.false_ne_true, fun ⟨_, h, _⟩ => nomatch h⟩
  | cons d rest =>
      rw [Bool.and_eq_true, beq_iff_eq]
      constructor
      · rintro ⟨rfl, h⟩
        exact ⟨rest, rfl, h⟩
      · rintro ⟨rest', heq, h⟩
        obtain ⟨rfl, rfl⟩ := List.cons.inj heq
        exact ⟨rfl, h⟩

/-- Escaped text stands for itself, and the pattern goes on after it. -/
theorem like_escape (s pattern text : List Char) :
    like (escape s ++ pattern) text = true ↔
      ∃ rest, text = s ++ rest ∧ like pattern rest = true := by
  induction s generalizing text with
  | nil => exact ⟨fun h => ⟨text, rfl, h⟩, fun ⟨_, heq, h⟩ => heq ▸ h⟩
  | cons c s ih =>
      rw [like_escape_cons]
      constructor
      · rintro ⟨rest, rfl, h⟩
        obtain ⟨rest', rfl, hlike⟩ := (ih rest).mp h
        exact ⟨rest', rfl, hlike⟩
      · rintro ⟨rest, rfl, h⟩
        exact ⟨s ++ rest, rfl, (ih _).mpr ⟨rest, rfl, h⟩⟩

/-- Between two percent signs, escaped text is searched as it stands. -/
theorem like_anywhere (s text : List Char) : like (anywhere s) text = true ↔ s <:+: text := by
  rw [anywhere, like_percent, List.any_eq_true]
  constructor
  · rintro ⟨after, hafter, h⟩
    obtain ⟨rest, rfl, -⟩ := (like_escape s ['%'] after).mp h
    obtain ⟨before, rfl⟩ := (List.mem_tails _ _).mp hafter
    exact ⟨before, rest, List.append_assoc _ _ _⟩
  · rintro ⟨before, rest, rfl⟩
    refine ⟨s ++ rest, (List.mem_tails _ _).mpr ⟨before, (List.append_assoc _ _ _).symm⟩, ?_⟩
    exact (like_escape s ['%'] _).mpr ⟨rest, rfl, like_percent_end rest⟩

/-! ## Case aside -/

/-- Lower case, character by character. It makes no character special. -/
structure CaseFold where
  fold : Char → Char
  fold_ascii : ∀ {c : Char}, c.toNat < 128 → fold c = c.toLower
  fold_special : ∀ {c : Char}, isSpecial (fold c) = true → fold c = c

/-- The first text stands in the second one, case aside. -/
def Holds (C : CaseFold) (text s : List Char) : Prop := s.map C.fold <:+: text.map C.fold

instance (C : CaseFold) (text s : List Char) : Decidable (Holds C text s) :=
  inferInstanceAs (Decidable (_ <:+: _))

/-- `text ILIKE pattern`. -/
def ilike (C : CaseFold) (pattern text : List Char) : Bool :=
  like (pattern.map C.fold) (text.map C.fold)

variable (C : CaseFold)

theorem CaseFold.fold_of_special (h : isSpecial c = true) : C.fold c = c := by
  simp only [isSpecial, Bool.or_eq_true, beq_iff_eq] at h
  rcases h with (rfl | rfl) | rfl
  all_goals
    rw [C.fold_ascii (by decide)]
    decide

theorem CaseFold.isSpecial_fold (c : Char) : isSpecial (C.fold c) = isSpecial c := by
  cases h : isSpecial c with
  | true => rw [C.fold_of_special h, h]
  | false =>
      rw [Bool.eq_false_iff]
      intro hfold
      rw [C.fold_special hfold, h] at hfold
      cases hfold

theorem map_escape (s : List Char) : (escape s).map C.fold = escape (s.map C.fold) := by
  induction s with
  | nil => rfl
  | cons c s ih =>
      rw [List.map_cons, escape_cons, escape_cons, List.map_append, ih, C.isSpecial_fold]
      cases hspecial : isSpecial c with
      | true =>
          have hslash : C.fold '\\' = '\\' := C.fold_of_special (by decide)
          simp only [if_true, List.map_cons, List.map_nil, hslash]
      | false => rfl

theorem map_anywhere (s : List Char) : (anywhere s).map C.fold = anywhere (s.map C.fold) := by
  have hpercent : C.fold '%' = '%' := C.fold_of_special (by decide)
  simp only [anywhere, List.map_cons, List.map_append, List.map_nil, map_escape, hpercent]

/-- Escaped text is searched case aside. -/
theorem ilike_anywhere (s text : List Char) :
    ilike C (anywhere s) text = true ↔ Holds C text s := by
  rw [ilike, map_anywhere, like_anywhere]
  exact Iff.rfl

theorem Holds.of_infix {C : CaseFold} (h : s <:+: text) : Holds C text s := h.map C.fold

/-- Lower case of ASCII letters only. -/
def asciiFold : CaseFold where
  fold := Char.toLower
  fold_ascii := fun _ => rfl
  fold_special := by
    intro c h
    rcases Url.toLower_cases c with hsame | ⟨hA, hZ, hlower⟩
    · exact hsame
    · simp only [isSpecial, Bool.or_eq_true, beq_iff_eq] at h
      rcases h with (h | h) | h
      all_goals
        rw [h] at hlower
        have hslash : '\\'.toNat = 92 := rfl
        have hpercent : '%'.toNat = 37 := rfl
        have hunder : '_'.toNat = 95 := rfl
        omega

end SeoAgent.Verified.Like
