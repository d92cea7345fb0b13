import SeoAgent.Verified.Lines
import SeoAgent.Verified.Nfc

/-!
# Normalised queries

`normalize_query` of `app/normalization/query.py`, over given Unicode tables. A query is
composed; then letters are mapped, and controls, zero-width characters and diacritics are taken
out; then white space is collapsed, and taken away around half spaces.

## Main results

* `stripped_tidy`, `spaced_tidy` — what the last steps leave has no white space at its ends, and
  none beside white space or a half space.
* `clean_clean` — the steps after the first change nothing the second time.
-/

namespace SeoAgent.Normalization

open SeoAgent.Verified Lines
open Text (isSpace head?_dropWhile_isSpace dropWhile_isSpace_of_head?)

/-! ## The steps -/

/-- `CHARACTER_TRANSLATION`. -/
def translate (c : Char) : Char :=
  if c = '\u064a' ∨ c = '\u0649' then '\u06cc' else if c = '\u0643' then '\u06a9' else c

/-- `INVISIBLE_CONTROL_CHARS_RE`. -/
def isInvisibleControl (c : Char) : Bool :=
  let n := c.toNat
  n == 0x61c || n == 0x200e || n == 0x200f || (0x202a ≤ n && n ≤ 0x202e) ||
    (0x2066 ≤ n && n ≤ 0x2069)

/-- `ZERO_WIDTH_NOISE_RE`; the half space is not noise. -/
def isZeroWidthNoise (c : Char) : Bool :=
  let n := c.toNat
  n == 0x200b || n == 0x200d || n == 0xfeff

/-- `DIACRITICS_RE`. -/
def isDiacritic (c : Char) : Bool :=
  let n := c.toNat
  (0x610 ≤ n && n ≤ 0x61a) || (0x64b ≤ n && n ≤ 0x65f) || n == 0x670 ||
    (0x6d6 ≤ n && n ≤ 0x6ed)

/-- `sub("", value)` of a class of characters. -/
def remove (p : Char → Bool) (s : List Char) : List Char := s.filter fun c => !p c

/-- Steps 2 to 5: letters are mapped, and noise is taken out. -/
def withoutNoise (s : List Char) : List Char :=
  remove isDiacritic (remove isZeroWidthNoise (remove isInvisibleControl (s.map translate)))

/-- `WHITESPACE_RE.sub(" ", value)`. -/
def collapseSpaces : List Char → List Char
  | [] => []
  | c :: s =>
      if isSpace c then
        if s.head?.any isSpace then collapseSpaces s else ' ' :: collapseSpaces s
      else c :: collapseSpaces s

/-- The half space. -/
def zwnj : Char := '\u200c'

/-- `re.sub(r"\s*\u200c\s*", "\u200c", value)`. -/
def joinHalfSpaces : List Char → List Char
  | [] => []
  | c :: s =>
      if c = zwnj then c :: (joinHalfSpaces s).dropWhile isSpace
      else if isSpace c ∧ (joinHalfSpaces s).head? = some zwnj then joinHalfSpaces s
      else c :: joinHalfSpaces s

/-- Steps 6 and 7. -/
def tidy (s : List Char) : List Char := joinHalfSpaces (strip (collapseSpaces s))

/-- The Unicode tables, as far as the steps rely on them. -/
structure QueryTables extends NormalizationTables where
  /-- White space in decompositions is in no composition. -/
  plain_of_part : ∀ c, ∀ d ∈ decomposition c, isSpace d = true →
    toNormalizationTables.Plain d
  not_space_of_composite : ∀ a b c, composite a b = some c → isSpace c = false
  plain_space : toNormalizationTables.Plain ' '
  plain_zwnj : toNormalizationTables.Plain zwnj
  /-- Other white space is never decomposed to a space. -/
  space_part : ∀ c, isSpace c = true → c ≠ ' ' → ∀ d ∈ decomposition c,
    isSpace d = true ∧ d ≠ ' '
  /-- The letters that are mapped, and those they are mapped to, have no parts. -/
  letter_part : ∀ c, translate c ≠ c →
    decomposition c = [c] ∧ decomposition (translate c) = [translate c]

/-- `normalize_query`. -/
def normalizeQuery (U : QueryTables) (query : List Char) : List Char :=
  tidy (withoutNoise (U.nfc query))

/-! ## What the steps leave -/

section Steps
variable {s : List Char} {c : Char}

theorem space_space : isSpace ' ' = true := rfl

theorem zwnj_not_space : isSpace zwnj = false := rfl

theorem translate_letter (h : translate c ≠ c) :
    translate c = '\u06cc' ∨ translate c = '\u06a9' := by
  unfold translate at h ⊢
  split
  · exact Or.inl rfl
  · next h1 =>
      rw [if_neg h1] at h
      split
      · exact Or.inr rfl
      · next h2 => exact absurd (if_neg h2) h

theorem translate_not_space (h : translate c ≠ c) : isSpace (translate c) = false := by
  rcases translate_letter h with hletter | hletter <;> rw [hletter] <;> rfl

theorem translate_translate (c : Char) : translate (translate c) = translate c := by
  by_cases h1 : c = '\u064a' ∨ c = '\u0649'
  · have hyeh : translate c = '\u06cc' := if_pos h1
    rw [hyeh]
    rfl
  · by_cases h2 : c = '\u0643'
    · rw [h2]
      rfl
    · have hsame : translate c = c := by rw [translate, if_neg h1, if_neg h2]
      rw [hsame, hsame]

theorem remove_sublist (p : Char → Bool) (s : List Char) : (remove p s).Sublist s :=
  List.filter_sublist

theorem mem_remove {p : Char → Bool} : c ∈ remove p s ↔ c ∈ s ∧ p c = false := by
  rw [remove, List.mem_filter, Bool.not_eq_true']

/-- No letter is mapped, and nothing is noise. -/
structure NoiseFree (c : Char) : Prop where
  letter : translate c = c
  control : isInvisibleControl c = false
  zeroWidth : isZeroWidthNoise c = false
  diacritic : isDiacritic c = false

theorem noiseFree_of_mem (h : c ∈ withoutNoise s) : NoiseFree c := by
  obtain ⟨h, hdiacritic⟩ := mem_remove.mp h
  obtain ⟨h, hzero⟩ := mem_remove.mp h
  obtain ⟨h, hcontrol⟩ := mem_remove.mp h
  obtain ⟨d, -, rfl⟩ := List.mem_map.mp h
  exact ⟨translate_translate d, hcontrol, hzero, hdiacritic⟩

theorem withoutNoise_self (h : ∀ c ∈ s, NoiseFree c) : withoutNoise s = s := by
  have hmap : s.map translate = s :=
    (List.map_congr_left fun c hc => (h c hc).letter).trans (List.map_id' s)
  have hremove {p : Char → Bool} (hp : ∀ c ∈ s, p c = false) : remove p s = s :=
    List.filter_eq_self.mpr fun c hc => by rw [hp c hc]; rfl
  rw [withoutNoise, hmap, hremove fun c hc => (h c hc).control,
    hremove fun c hc => (h c hc).zeroWidth, hremove fun c hc => (h c hc).diacritic]

/-! ### White space -/

/-- White space is a single space. -/
def Single (a b : Char) : Prop := isSpace a = true → isSpace b = false

theorem mem_collapseSpaces (h : c ∈ collapseSpaces s) :
    c = ' ' ∨ (c ∈ s ∧ isSpace c = false) := by
  induction s with
  | nil => cases h
  | cons d s ih =>
      have hrest (h : c ∈ collapseSpaces s) : c = ' ' ∨ (c ∈ d :: s ∧ isSpace c = false) :=
        (ih h).imp_right fun h => ⟨List.mem_cons_of_mem d h.1, h.2⟩
      rw [collapseSpaces] at h
      split at h
      · split at h
        · exact hrest h
        · exact (List.mem_cons.mp h).elim Or.inl hrest
      · next hd =>
          rcases List.mem_cons.mp h with rfl | h
          · exact Or.inr ⟨List.mem_cons_self, Bool.eq_false_iff.mpr hd⟩
          · exact hrest h

/-- A text that begins with no white space still begins so. -/
theorem head?_collapseSpaces (h : s.head?.any isSpace = false) :
    (collapseSpaces s).head? = s.head? := by
  cases s with
  | nil => rfl
  | cons c s =>
      have hc : ¬isSpace c = true := Bool.eq_false_iff.mp h
      rw [collapseSpaces, if_neg hc]
      rfl

theorem single_collapseSpaces (s : List Char) : (collapseSpaces s).IsChain Single := by
  induction s with
  | nil => exact List.isChain_nil
  | cons c s ih =>
      rw [collapseSpaces]
      split
      · split
        · exact ih
        · next hnext =>
            have hnext := Bool.eq_false_iff.mpr hnext
            refine List.isChain_cons.mpr ⟨fun d hd _ => ?_, ih⟩
            rw [head?_collapseSpaces hnext] at hd
            rw [Option.mem_def.mp hd] at hnext
            exact hnext
      · next hc => exact List.isChain_cons.mpr ⟨fun _ _ hspace => absurd hspace hc, ih⟩

theorem collapseSpaces_self (hsingle : s.IsChain Single)
    (hspace : ∀ c ∈ s, isSpace c = true → c = ' ') : collapseSpaces s = s := by
  induction s with
  | nil => rfl
  | cons c s ih =>
      obtain ⟨hnext, hsingle⟩ := List.isChain_cons.mp hsingle
      obtain ⟨hc, hspace⟩ := List.forall_mem_cons.mp hspace
      rw [collapseSpaces, ih hsingle hspace]
      split
      · next hleft =>
          have hhead : ¬s.head?.any isSpace = true := by
            cases s with
            | nil => exact Bool.false_ne_true
            | cons d s => exact Bool.eq_false_iff.mp (hnext d rfl hleft)
          rw [if_neg hhead, hc hleft]
      · rfl

/-! ### Both ends -/

/-- A text with no white space at either end. -/
structure Stripped (s : List Char) : Prop where
  first : ∀ c ∈ s.head?, isSpace c = false
  last : ∀ c ∈ s.getLast?, isSpace c = false

theorem strip_self (h : Stripped s) : strip s = s := by
  rw [strip, dropWhile_isSpace_of_head? h.first, List.rdropWhile_eq_self_iff]
  intro hne
  rw [h.last _ (List.getLast?_eq_some_getLast hne)]
  exact Bool.false_ne_true

/-- Stripping takes off what is in front and what comes after. -/
theorem strip_inside (s : List Char) : ∃ before after, s = before ++ strip s ++ after := by
  obtain ⟨before, hbefore⟩ := List.dropWhile_suffix isSpace (l := s)
  obtain ⟨after, hafter⟩ := List.rdropWhile_prefix isSpace (s.dropWhile isSpace)
  refine ⟨before, after, ?_⟩
  rw [strip, List.append_assoc, hafter, hbefore]

theorem strip_sublist (s : List Char) : (strip s).Sublist s :=
  (List.rdropWhile_prefix isSpace _).sublist.trans (List.dropWhile_sublist _)

theorem single_strip (h : s.IsChain Single) : (strip s).IsChain Single := by
  obtain ⟨before, after, hs⟩ := strip_inside s
  rw [hs] at h
  exact (List.isChain_append.mp (List.isChain_append.mp h).1).2.1

theorem stripped_strip (s : List Char) : Stripped (strip s) where
  first := by
    intro c hc
    obtain ⟨rest, hrest⟩ := List.rdropWhile_prefix isSpace (s.dropWhile isSpace)
    refine head?_dropWhile_isSpace s c ?_
    rw [← hrest, List.head?_append, ← strip, hc]
    rfl
  last := by
    intro c hc
    have hne : strip s ≠ [] := fun hnil => by
      rw [hnil] at hc
      cases hc
    rw [List.getLast?_eq_some_getLast hne] at hc
    rw [← Option.some.inj hc]
    exact Bool.eq_false_iff.mpr (List.rdropWhile_last_not isSpace _ hne)

/-! ### Half spaces -/

theorem joinHalfSpaces_sublist (s : List Char) : (joinHalfSpaces s).Sublist s := by
  induction s with
  | nil => exact List.Sublist.refl _
  | cons c s ih =>
      rw [joinHalfSpaces]
      split
      · exact ((List.dropWhile_sublist _).trans ih).cons_cons c
      · split
        · exact ih.cons c
        · exact ih.cons_cons c

/-- No white space beside white space or a half space. -/
def Spaced (a b : Char) : Prop :=
  (isSpace a = true → isSpace b = false ∧ b ≠ zwnj) ∧ (a = zwnj → isSpace b = false)

/-- A text that begins with no white space keeps its first character. -/
theorem head?_joinHalfSpaces (h : s.head?.any isSpace = false) :
    (joinHalfSpaces s).head? = s.head? := by
  cases s with
  | nil => rfl
  | cons c s =>
      have hc : isSpace c = false := h
      rw [joinHalfSpaces]
      split
      · rfl
      · rw [if_neg fun hspace => Bool.false_ne_true (hc.symm.trans hspace.1)]
        rfl

theorem spaced_joinHalfSpaces (h : s.IsChain Single) : (joinHalfSpaces s).IsChain Spaced := by
  induction s with
  | nil => exact List.isChain_nil
  | cons c s ih =>
      obtain ⟨hnext, hsingle⟩ := List.isChain_cons.mp h
      rw [joinHalfSpaces]
      split
      · next hc =>
          refine List.isChain_cons.mpr ⟨fun d hd => ⟨fun hspace => ?_, fun _ => ?_⟩,
            (ih hsingle).suffix (List.dropWhile_suffix _)⟩
          · rw [hc, zwnj_not_space] at hspace
            cases hspace
          · exact head?_dropWhile_isSpace _ d hd
      · next hc =>
          split
          · exact ih hsingle
          · next hnot =>
              refine List.isChain_cons.mpr ⟨fun d hd => ⟨fun hspace => ⟨?_, fun hd' => ?_⟩,
                fun h => absurd h hc⟩, ih hsingle⟩
              · cases s with
                | nil => cases hd
                | cons e s =>
                    have he : (e :: s).head?.any isSpace = false := hnext e rfl hspace
                    rw [head?_joinHalfSpaces he] at hd
                    rw [← Option.some.inj hd]
                    exact he
              · exact hnot ⟨hspace, hd' ▸ hd⟩

theorem joinHalfSpaces_self (h : s.IsChain Spaced) : joinHalfSpaces s = s := by
  induction s with
  | nil => rfl
  | cons c s ih =>
      obtain ⟨hnext, hspaced⟩ := List.isChain_cons.mp h
      rw [joinHalfSpaces, ih hspaced]
      split
      · next hc => rw [dropWhile_isSpace_of_head? fun d hd => (hnext d hd).2 hc]
      · split
        · next hjoin => exact absurd rfl ((hnext zwnj hjoin.2).1 hjoin.1).2
        · rfl

theorem last_cons {t : List Char} (ht : ∀ d ∈ t.getLast?, isSpace d = false)
    (hc : t = [] → isSpace c = false) : ∀ d ∈ (c :: t).getLast?, isSpace d = false := by
  intro d hd
  cases t with
  | nil =>
      rw [← Option.some.inj hd]
      exact hc rfl
  | cons e t =>
      rw [List.getLast?_cons_cons] at hd
      exact ht d hd

theorem joinHalfSpaces_ne_nil (c : Char) (s : List Char) : joinHalfSpaces (c :: s) ≠ [] := by
  rw [joinHalfSpaces]
  split
  · exact List.cons_ne_nil _ _
  · split
    · next hjoin =>
        intro hnil
        rw [hnil] at hjoin
        cases hjoin.2
    · exact List.cons_ne_nil _ _

theorem last_joinHalfSpaces (h : ∀ c ∈ s.getLast?, isSpace c = false) :
    ∀ c ∈ (joinHalfSpaces s).getLast?, isSpace c = false := by
  induction s with
  | nil => exact h
  | cons c s ih =>
      have hrest : ∀ d ∈ (joinHalfSpaces s).getLast?, isSpace d = false := by
        cases s with
        | nil => exact fun d hd => absurd hd (Option.not_mem_none d)
        | cons e s => exact ih fun d hd => h d (by rw [List.getLast?_cons_cons]; exact hd)
      have honly : joinHalfSpaces s = [] → isSpace c = false := by
        cases s with
        | nil => exact fun _ => h c rfl
        | cons e s => exact fun hnil => absurd hnil (joinHalfSpaces_ne_nil e s)
      rw [joinHalfSpaces]
      split
      · next hc =>
          refine last_cons (fun d hd => ?_) fun _ => hc ▸ zwnj_not_space
          obtain ⟨front, hfront⟩ := List.dropWhile_suffix isSpace (l := joinHalfSpaces s)
          refine hrest d ?_
          rw [← hfront, List.getLast?_append, hd]
          rfl
      · split
        · exact hrest
        · exact last_cons hrest honly

theorem stripped_joinHalfSpaces (h : Stripped s) : Stripped (joinHalfSpaces s) where
  first := by
    have hfirst : s.head?.any isSpace = false := by
      cases s with
      | nil => rfl
      | cons c s => exact h.first c rfl
    rw [head?_joinHalfSpaces hfirst]
    exact h.first
  last := last_joinHalfSpaces h.last

/-! ### All the steps -/

theorem mem_tidy (h : c ∈ tidy s) : c = ' ' ∨ (c ∈ s ∧ isSpace c = false) :=
  mem_collapseSpaces ((strip_sublist _).subset ((joinHalfSpaces_sublist _).subset h))

theorem stripped_tidy (s : List Char) : Stripped (tidy s) :=
  stripped_joinHalfSpaces (stripped_strip _)

theorem spaced_tidy (s : List Char) : (tidy s).IsChain Spaced :=
  spaced_joinHalfSpaces (single_strip (single_collapseSpaces s))

theorem tidy_self (hspaced : s.IsChain Spaced) (hstripped : Stripped s)
    (hspace : ∀ c ∈ s, isSpace c = true → c = ' ') : tidy s = s := by
  have hsingle : s.IsChain Single := hspaced.imp fun _ _ h hspace => (h.1 hspace).1
  rw [tidy, collapseSpaces_self hsingle hspace, strip_self hstripped,
    joinHalfSpaces_self hspaced]

theorem noiseFree_space : NoiseFree ' ' := ⟨rfl, rfl, rfl, rfl⟩

/-- The steps after the first change nothing the second time. -/
theorem clean_clean (s : List Char) :
    tidy (withoutNoise (tidy (withoutNoise s))) = tidy (withoutNoise s) := by
  have hfree : ∀ c ∈ tidy (withoutNoise s), NoiseFree c := fun c hc =>
    (mem_tidy hc).elim (fun h => h ▸ noiseFree_space) fun h => noiseFree_of_mem h.1
  rw [withoutNoise_self hfree]
  refine tidy_self (spaced_tidy _) (stripped_tidy _) fun c hc hspace => ?_
  exact (mem_tidy hc).resolve_right fun h => Bool.false_ne_true (h.2.symm.trans hspace)

end Steps

end SeoAgent.Normalization
