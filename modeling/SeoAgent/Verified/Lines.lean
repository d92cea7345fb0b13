import Mathlib
import SeoAgent.Verified.Text

/-!
# Lines of a text

`splitlines` and `"\n".join` of `str`, `strip` and `rstrip("\n")`, on lists of characters. A
text that is put together from lines without a line break in them has these lines.

## Main results

* `splitLines_joined` — lines that each end with a line feed are read back.
* `splitLines_written` — a text written without its last empty lines.
-/

namespace SeoAgent.Verified.Lines

/-! ## Line breaks -/

/-- A character that `splitlines` ends a line at. -/
def isBreak (c : Char) : Bool :=
  let n := c.toNat
  (10 ≤ n && n ≤ 13) || (28 ≤ n && n ≤ 30) || n == 0x85 || n == 0x2028 || n == 0x2029

/-- A line without a line break in it. -/
def OneLine (line : List Char) : Prop := ∀ c ∈ line, isBreak c = false

def consFirst (c : Char) : List (List Char) → List (List Char)
  | [] => [[c]]
  | line :: lines => (c :: line) :: lines

/-- `splitlines`; a carriage return and a line feed are one break. -/
def splitLines : List Char → List (List Char)
  | [] => []
  | '\r' :: '\n' :: cs => [] :: splitLines cs
  | c :: cs => if isBreak c then [] :: splitLines cs else consFirst c (splitLines cs)

/-- `strip`. -/
def strip (s : List Char) : List Char := (s.dropWhile Text.isSpace).rdropWhile Text.isSpace

/-- `"\n".join`. -/
def join (lines : List (List Char)) : List Char := ['\n'].intercalate lines

/-- `rstrip("\n")`. -/
def rstripBreaks (s : List Char) : List Char := s.rdropWhile (· == '\n')

/-- A line that is empty or white space. -/
def isBlank (line : List Char) : Bool := (strip line).isEmpty

/-! ## White space -/

section Space
variable {s : List Char}

theorem strip_eq_nil : strip s = [] ↔ ∀ c ∈ s, Text.isSpace c = true := by
  constructor
  · intro h c hc
    rw [strip, List.rdropWhile_eq_nil_iff] at h
    by_contra hnot
    have hdrop : s.dropWhile Text.isSpace ≠ [] := fun hnil =>
      hnot (List.dropWhile_eq_nil_iff.mp hnil c hc)
    have hhead := List.head_dropWhile_not Text.isSpace hdrop
    rw [h _ (List.head_mem hdrop)] at hhead
    cases hhead
  · intro h
    rw [strip, List.dropWhile_eq_nil_iff.mpr h]
    rfl

theorem isBlank_iff : isBlank s = true ↔ ∀ c ∈ s, Text.isSpace c = true := by
  rw [isBlank, List.isEmpty_iff, strip_eq_nil]

end Space

/-! ## Reading and writing -/

theorem mem_consFirst {c : Char} {lines : List (List Char)} {line : List Char}
    (h : line ∈ consFirst c lines) : (∃ tail, line = c :: tail ∧ (tail = [] ∨ tail ∈ lines)) ∨
      line ∈ lines := by
  cases lines with
  | nil => exact .inl ⟨[], List.mem_singleton.mp h, .inl rfl⟩
  | cons first rest =>
      rcases List.mem_cons.mp h with rfl | h
      · exact .inl ⟨first, rfl, .inr List.mem_cons_self⟩
      · exact .inr (List.mem_cons_of_mem first h)

/-- What is read has no line breaks. -/
theorem oneLine_of_mem {s line : List Char} (h : line ∈ splitLines s) : OneLine line := by
  induction s using splitLines.induct generalizing line with
  | case1 => cases h
  | case2 cs ih =>
      rcases List.mem_cons.mp h with rfl | h
      · exact fun _ hc => absurd hc List.not_mem_nil
      · exact ih h
  | case3 c cs hcr hbreak ih =>
      rw [splitLines, if_pos hbreak] at h
      · rcases List.mem_cons.mp h with rfl | h
        · exact fun _ hc => absurd hc List.not_mem_nil
        · exact ih h
      · exact hcr
  | case4 c cs hcr hbreak ih =>
      rw [splitLines, if_neg hbreak] at h
      · rcases mem_consFirst h with ⟨tail, rfl, htail⟩ | h
        · intro d hd
          rcases List.mem_cons.mp hd with rfl | hd
          · exact Bool.eq_false_iff.mpr hbreak
          · rcases htail with rfl | htail
            · cases hd
            · exact ih htail d hd
        · exact ih h
      · exact hcr

/-- The characters of a line are of the text. -/
theorem mem_of_mem_line {s line : List Char} {c : Char} (h : line ∈ splitLines s) (hc : c ∈ line) :
    c ∈ s := by
  induction s using splitLines.induct generalizing line with
  | case1 => cases h
  | case2 cs ih =>
      rcases List.mem_cons.mp h with rfl | h
      · cases hc
      · exact List.mem_cons_of_mem _ (List.mem_cons_of_mem _ (ih h hc))
  | case3 d cs hcr hbreak ih =>
      rw [splitLines, if_pos hbreak] at h
      · rcases List.mem_cons.mp h with rfl | h
        · cases hc
        · exact List.mem_cons_of_mem _ (ih h hc)
      · exact hcr
  | case4 d cs hcr hbreak ih =>
      rw [splitLines, if_neg hbreak] at h
      · rcases mem_consFirst h with ⟨tail, rfl, htail⟩ | h
        · rcases List.mem_cons.mp hc with rfl | hc
          · exact List.mem_cons_self
          · rcases htail with rfl | htail
            · cases hc
            · exact List.mem_cons_of_mem _ (ih htail hc)
        · exact List.mem_cons_of_mem _ (ih h hc)
      · exact hcr

theorem isSpace_of_isBreak {c : Char} (h : isBreak c = true) : Text.isSpace c = true := by
  simp only [isBreak, Text.isSpace, Bool.or_eq_true, Bool.and_eq_true, decide_eq_true_eq,
    beq_iff_eq] at h ⊢
  omega

/-- A character of a text that is no line break is in one of its lines. -/
theorem exists_line {s : List Char} {c : Char} (h : c ∈ s) (hc : isBreak c = false) :
    ∃ line ∈ splitLines s, c ∈ line := by
  induction s using splitLines.induct with
  | case1 => cases h
  | case2 cs ih =>
      rcases List.mem_cons.mp h with rfl | h
      · cases hc
      · rcases List.mem_cons.mp h with rfl | h
        · cases hc
        · obtain ⟨line, hline, hmem⟩ := ih h
          exact ⟨line, List.mem_cons_of_mem _ hline, hmem⟩
  | case3 d cs hcr hbreak ih =>
      rw [splitLines, if_pos hbreak]
      · rcases List.mem_cons.mp h with rfl | h
        · rw [hbreak] at hc
          cases hc
        · obtain ⟨line, hline, hmem⟩ := ih h
          exact ⟨line, List.mem_cons_of_mem _ hline, hmem⟩
      · exact hcr
  | case4 d cs hcr hbreak ih =>
      rw [splitLines, if_neg hbreak]
      · cases hlines : splitLines cs with
        | nil =>
            rcases List.mem_cons.mp h with rfl | h
            · exact ⟨[c], List.mem_cons_self, List.mem_cons_self⟩
            · obtain ⟨line, hline, -⟩ := ih h
              rw [hlines] at hline
              cases hline
        | cons first rest =>
            rcases List.mem_cons.mp h with rfl | h
            · exact ⟨c :: first, List.mem_cons_self, List.mem_cons_self⟩
            · obtain ⟨line, hline, hmem⟩ := ih h
              rw [hlines] at hline
              rcases List.mem_cons.mp hline with rfl | hline
              · exact ⟨d :: line, List.mem_cons_self, List.mem_cons_of_mem d hmem⟩
              · exact ⟨line, List.mem_cons_of_mem _ hline, hmem⟩
      · exact hcr

/-- Text up to a line feed is a line. -/
theorem splitLines_append {line : List Char} (h : OneLine line) (rest : List Char) :
    splitLines (line ++ '\n' :: rest) = line :: splitLines rest := by
  induction line with
  | nil => rfl
  | cons c line ih =>
      have hc : isBreak c = false := h c List.mem_cons_self
      have hcr : ∀ cs, c = '\r' → line ++ '\n' :: rest = '\n' :: cs → False := by
        rintro _ rfl -
        cases hc
      rw [List.cons_append, splitLines, hc]
      · rw [ih fun d hd => h d (List.mem_cons_of_mem c hd)]
        rfl
      · exact hcr

/-- Lines that each end with a line feed are read back. -/
theorem splitLines_joined {lines : List (List Char)} (h : ∀ line ∈ lines, OneLine line) :
    splitLines (lines.flatMap (· ++ ['\n'])) = lines := by
  induction lines with
  | nil => rfl
  | cons line lines ih =>
      rw [List.flatMap_cons, List.append_assoc, List.singleton_append,
        splitLines_append (h line List.mem_cons_self),
        ih fun l hl => h l (List.mem_cons_of_mem line hl)]

theorem join_concat {lines : List (List Char)} (h : lines ≠ []) (line : List Char) :
    join (lines ++ [line]) = join lines ++ '\n' :: line := by
  induction lines with
  | nil => exact absurd rfl h
  | cons first rest ih =>
      cases rest with
      | nil => simp [join, List.intercalate]
      | cons second rest =>
          have := ih (List.cons_ne_nil _ _)
          simp only [join, List.intercalate, List.cons_append, List.intersperse_cons_cons,
            List.flatten_cons] at this ⊢
          rw [this]
          simp

theorem join_lineFeed {lines : List (List Char)} (h : lines ≠ []) :
    join lines ++ ['\n'] = lines.flatMap (· ++ ['\n']) := by
  induction lines using List.reverseRecOn with
  | nil => exact absurd rfl h
  | append_singleton lines line ih =>
      by_cases hnil : lines = []
      · subst hnil
        simp [join, List.intercalate]
      · rw [join_concat hnil, List.flatMap_append, ← ih hnil]
        simp

/-- `rstrip` takes the empty lines at the end. -/
theorem rstripBreaks_join {lines : List (List Char)} (h : ∀ line ∈ lines, OneLine line) :
    rstripBreaks (join lines) = join (lines.rdropWhile List.isEmpty) := by
  induction lines using List.reverseRecOn with
  | nil => rfl
  | append_singleton lines line ih =>
      have hlines : ∀ l ∈ lines, OneLine l := fun l hl => h l (List.mem_append_left _ hl)
      rcases List.eq_nil_or_concat line with rfl | ⟨front, last, rfl⟩
      · rw [List.rdropWhile_concat_pos _ _ _ rfl, ← ih hlines]
        by_cases hnil : lines = []
        · subst hnil
          rfl
        · rw [join_concat hnil]
          exact List.rdropWhile_concat_pos _ _ _ rfl
      · rw [List.concat_eq_append] at h ⊢
        have hlast : last ≠ '\n' := by
          rintro rfl
          cases h _ (List.mem_append_right _ (List.mem_singleton_self _)) '\n'
            (List.mem_append_right _ (List.mem_singleton_self _))
        have hkeep (text : List Char) : rstripBreaks (text ++ [last]) = text ++ [last] :=
          List.rdropWhile_concat_neg _ _ _ (by simpa using hlast)
        rw [List.rdropWhile_concat_neg _ _ _ (by simp)]
        by_cases hnil : lines = []
        · subst hnil
          simpa [join, List.intercalate] using hkeep front
        · rw [join_concat hnil, ← List.cons_append, ← List.append_assoc]
          exact hkeep _

/-- What is read of a text that was written without its last empty lines. -/
theorem splitLines_written {lines : List (List Char)} (h : ∀ line ∈ lines, OneLine line)
    (hne : lines.rdropWhile List.isEmpty ≠ []) :
    splitLines (rstripBreaks (join lines) ++ ['\n']) = lines.rdropWhile List.isEmpty := by
  rw [rstripBreaks_join h, join_lineFeed hne]
  exact splitLines_joined fun line hline => h line ((List.rdropWhile_prefix _ _).subset hline)

example : splitLines "a\r\n\nb\u2028c".toList = ["a".toList, [], "b".toList, "c".toList] := by
  decide

end SeoAgent.Verified.Lines
