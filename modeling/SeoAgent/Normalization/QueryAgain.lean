import SeoAgent.Normalization.Query

/-!
# Normalised queries, normalised again

Keywords are kept under their normalised form, and the form is normalised again where they are
looked up. Noise is taken out after the composition, so what it stood between may compose the
second time.

The proofs weigh texts: composition keeps the weight, and every other step makes a text
lighter unless it leaves it as it is.

## Main results

* `composed_tidy` — white space is tidied without a composition.
* `normalizeQuery_eq_self_iff` — a text is normalised if and only if it is composed and the
  other steps do not change it.
* `normalizeQuery_again_iff` — a normalised query stays as it is if and only if the composed
  query, without its noise, is still composed.
-/

namespace SeoAgent.Normalization

open SeoAgent.Verified Lines
open Text (isSpace)

/-! ## Composition and white space -/

section Composition
variable {U : QueryTables} {s : List Char}

/-- White space of the text is in no composition. -/
def PlainSpaces (U : QueryTables) (s : List Char) : Prop :=
  ∀ c ∈ s, isSpace c = true → U.Plain c

theorem PlainSpaces.sublist {t : List Char} (h : PlainSpaces U s) (hsub : t.Sublist s) :
    PlainSpaces U t := fun c hc => h c (hsub.subset hc)

theorem plainSpaces_nfc (s : List Char) : PlainSpaces U (U.nfc s) := by
  refine U.forall_nfc (fun a b c hc hspace => ?_) fun c d hd => U.plain_of_part c d hd
  rw [U.not_space_of_composite a b c hc] at hspace
  cases hspace

theorem plainSpaces_withoutNoise (h : PlainSpaces U s) : PlainSpaces U (withoutNoise s) := by
  intro c hc hspace
  obtain ⟨d, hd, rfl⟩ := List.mem_map.mp
    (mem_remove.mp (mem_remove.mp (mem_remove.mp hc).1).1).1
  by_cases hsame : translate d = d
  · rw [hsame] at hspace ⊢
    exact h d hd hspace
  · rw [translate_not_space hsame] at hspace
    cases hspace

theorem composed_dropWhile (h : PlainSpaces U s) :
    U.Composed (s.dropWhile isSpace) ↔ U.Composed s := by
  induction s with
  | nil => exact Iff.rfl
  | cons c s ih =>
      obtain ⟨hc, hrest⟩ := List.forall_mem_cons.mp h
      rw [List.dropWhile_cons]
      split
      · next hspace => exact (ih hrest).trans (U.composed_cons_plain (hc hspace) s).symm
      · rfl

theorem composed_rdropWhile (h : PlainSpaces U s) :
    U.Composed (s.rdropWhile isSpace) ↔ U.Composed s := by
  induction s using List.reverseRecOn with
  | nil => exact Iff.rfl
  | append_singleton s c ih =>
      obtain ⟨hrest, hc⟩ := List.forall_mem_append.mp h
      rw [List.rdropWhile_concat]
      split
      · next hspace =>
          rw [ih hrest, U.composed_append_plain (hc c List.mem_cons_self hspace)]
          exact (and_iff_left U.composed_nil).symm
      · rfl

theorem composed_strip (h : PlainSpaces U s) : U.Composed (strip s) ↔ U.Composed s :=
  (composed_rdropWhile (h.sublist (List.dropWhile_sublist _))).trans (composed_dropWhile h)

theorem composed_collapseSpaces (h : PlainSpaces U s) (before : List Char) :
    U.Composed (before ++ collapseSpaces s) ↔ U.Composed (before ++ s) := by
  induction s generalizing before with
  | nil => exact Iff.rfl
  | cons c s ih =>
      obtain ⟨hc, hrest⟩ := List.forall_mem_cons.mp h
      rw [collapseSpaces]
      split
      · next hspace =>
          rw [U.composed_append_plain (hc hspace)]
          split
          · next hnext =>
              rw [ih hrest]
              cases s with
              | nil => cases hnext
              | cons d s =>
                  have hd := (List.forall_mem_cons.mp hrest).1 hnext
                  rw [U.composed_append_plain hd, U.composed_cons_plain hd]
          · rw [U.composed_append_plain U.plain_space, ← List.nil_append (collapseSpaces s),
              ih hrest, List.nil_append]
      · rw [List.append_cons, ih hrest, ← List.append_cons]

theorem composed_joinHalfSpaces (h : PlainSpaces U s) (before : List Char) :
    U.Composed (before ++ joinHalfSpaces s) ↔ U.Composed (before ++ s) := by
  induction s generalizing before with
  | nil => exact Iff.rfl
  | cons c s ih =>
      obtain ⟨hc, hrest⟩ := List.forall_mem_cons.mp h
      have hjoined : U.Composed (joinHalfSpaces s) ↔ U.Composed s := ih hrest []
      rw [joinHalfSpaces]
      split
      · next hzwnj =>
          have hplain : U.Plain c := hzwnj ▸ U.plain_zwnj
          rw [U.composed_append_plain hplain, U.composed_append_plain hplain,
            composed_dropWhile (PlainSpaces.sublist hrest (joinHalfSpaces_sublist s)), hjoined]
      · split
        · next hjoin =>
            obtain ⟨rest, hhead⟩ := List.head?_eq_some_iff.mp hjoin.2
            rw [U.composed_append_plain (hc hjoin.1), ← hjoined, hhead,
              U.composed_append_plain U.plain_zwnj, U.composed_cons_plain U.plain_zwnj]
        · rw [List.append_cons, ih hrest, ← List.append_cons]

/-- White space is tidied without a composition. -/
theorem composed_tidy (h : PlainSpaces U s) : U.Composed (tidy s) ↔ U.Composed s := by
  have hcollapsed : PlainSpaces U (collapseSpaces s) := fun c hc hspace =>
    (mem_collapseSpaces hc).elim (fun h => h ▸ U.plain_space) fun hin => h c hin.1 hspace
  have hstripped := hcollapsed.sublist (strip_sublist (collapseSpaces s))
  exact (composed_joinHalfSpaces hstripped []).trans
    ((composed_strip hcollapsed).trans (composed_collapseSpaces h []))

end Composition

/-! ## Normalised texts -/

section Normalised
variable {U : QueryTables}

/-- What a step changes counts double. -/
def value (c : Char) : Nat := if translate c ≠ c ∨ (isSpace c = true ∧ c ≠ ' ') then 2 else 1

theorem value_pos (c : Char) : 0 < value c := by
  unfold value
  split
  · exact Nat.two_pos
  · exact Nat.one_pos

/-- A step that makes a text lighter, or leaves it as it is. -/
def Lightens (U : QueryTables) (step : List Char → List Char) : Prop :=
  ∀ s, U.weight value (step s) ≤ U.weight value s ∧
    (U.weight value (step s) = U.weight value s → step s = s)

theorem Lightens.comp {first second : List Char → List Char} (hsecond : Lightens U second)
    (hfirst : Lightens U first) : Lightens U fun s => second (first s) := by
  intro s
  obtain ⟨hle, hsame⟩ := hfirst s
  obtain ⟨hle', hsame'⟩ := hsecond (first s)
  refine ⟨hle'.trans hle, fun h => ?_⟩
  have hmiddle : first s = s := hsame (le_antisymm hle (h ▸ hle'))
  exact (hsame' (h.trans (congrArg (U.weight value) hmiddle).symm)).trans hmiddle

theorem lightens_of_sublist {step : List Char → List Char} (h : ∀ s, (step s).Sublist s) :
    Lightens U step := fun s =>
  ⟨U.weight_sublist (h s), U.eq_of_weight_sublist value_pos (h s)⟩

theorem weight_letter {c : Char} (h : translate c ≠ c) :
    U.weight value [translate c] < U.weight value [c] := by
  obtain ⟨hfrom, hto⟩ := U.letter_part c h
  have hletter : ¬(translate (translate c) ≠ translate c ∨
      (isSpace (translate c) = true ∧ translate c ≠ ' ')) := by
    rw [translate_translate, translate_not_space h]
    rintro (hne | ⟨hspace, -⟩)
    · exact hne rfl
    · cases hspace
  have hheavy : value c = 2 := if_pos (Or.inl h)
  have hlight : value (translate c) = 1 := if_neg hletter
  unfold NormalizationTables.weight
  rw [List.flatMap_singleton, List.flatMap_singleton, hfrom, hto, List.map_singleton,
    List.map_singleton, List.sum_singleton, List.sum_singleton, hheavy, hlight]
  exact Nat.one_lt_two

theorem lightens_translate : Lightens U (List.map translate) := by
  intro s
  induction s with
  | nil => exact ⟨le_refl _, fun _ => rfl⟩
  | cons c s ih =>
      obtain ⟨hle, hsame⟩ := ih
      rw [List.map_cons, U.weight_cons (translate c), U.weight_cons c]
      by_cases hc : translate c = c
      · rw [hc]
        exact ⟨Nat.add_le_add_left hle _, fun h => by rw [hsame (Nat.add_left_cancel h)]⟩
      · have hlight := weight_letter (U := U) hc
        exact ⟨by omega, fun h => by omega⟩

theorem weight_space : U.weight value [' '] = 1 := by
  unfold NormalizationTables.weight
  rw [List.flatMap_singleton, U.plain_space.decomposition]
  rfl

theorem weight_other_space {c : Char} (hspace : isSpace c = true) (hc : c ≠ ' ') :
    1 < U.weight value [c] := by
  obtain ⟨d, parts, hparts⟩ := List.exists_cons_of_ne_nil (U.decomposition_ne_nil c)
  have hd := U.space_part c hspace hc d (hparts ▸ List.mem_cons_self)
  have hheavy : value d = 2 := if_pos (Or.inr hd)
  unfold NormalizationTables.weight
  rw [List.flatMap_singleton, hparts, List.map_cons, List.sum_cons, hheavy]
  omega

theorem lightens_collapseSpaces : Lightens U collapseSpaces := by
  intro s
  induction s with
  | nil => exact ⟨le_refl _, fun _ => rfl⟩
  | cons c s ih =>
      obtain ⟨hle, hsame⟩ := ih
      have hpos : 0 < U.weight value [c] := U.weight_pos value_pos (List.cons_ne_nil c [])
      rw [collapseSpaces, U.weight_cons c]
      split
      · next hspace =>
          split
          · exact ⟨by omega, fun h => by omega⟩
          · rw [U.weight_cons ' ' (collapseSpaces s), weight_space]
            refine ⟨by omega, fun h => ?_⟩
            by_cases hc : c = ' '
            · rw [hc, hsame]
              rw [hc, weight_space] at h
              omega
            · have hheavy := weight_other_space (U := U) hspace hc
              omega
      · rw [U.weight_cons c (collapseSpaces s)]
        exact ⟨by omega, fun h => by rw [hsame (Nat.add_left_cancel h)]⟩

theorem lightens_clean : Lightens U fun s => tidy (withoutNoise s) := by
  have hremove (p : Char → Bool) : Lightens U (remove p) :=
    lightens_of_sublist (remove_sublist p)
  have hnoise : Lightens U withoutNoise := (hremove isDiacritic).comp
    ((hremove isZeroWidthNoise).comp ((hremove isInvisibleControl).comp lightens_translate))
  have htidy : Lightens U tidy := (lightens_of_sublist joinHalfSpaces_sublist).comp
    ((lightens_of_sublist strip_sublist).comp lightens_collapseSpaces)
  exact htidy.comp hnoise

/-- A text is normalised if and only if it is composed and the other steps do not change it. -/
theorem normalizeQuery_eq_self_iff {s : List Char} :
    normalizeQuery U s = s ↔ U.Composed s ∧ tidy (withoutNoise s) = s := by
  constructor
  · intro h
    -- Composition keeps the weight, and so the other steps find nothing to change.
    have hclean : tidy (withoutNoise (U.nfc s)) = U.nfc s := by
      refine (lightens_clean (U := U) (U.nfc s)).2 ?_
      change U.weight value (normalizeQuery U s) = _
      rw [h, U.weight_nfc]
    have hcomposed : U.nfc s = s := hclean.symm.trans h
    rw [hcomposed] at hclean
    exact ⟨hcomposed, hclean⟩
  · rintro ⟨hcomposed, hclean⟩
    rw [normalizeQuery, hcomposed, hclean]

end Normalised

/-- A normalised query stays as it is if and only if the composed query, its letters mapped and
its noise taken out, is still composed. -/
theorem normalizeQuery_again_iff (U : QueryTables) (query : List Char) :
    normalizeQuery U (normalizeQuery U query) = normalizeQuery U query ↔
      U.Composed (withoutNoise (U.nfc query)) := by
  have hspaces : PlainSpaces U (withoutNoise (U.nfc query)) :=
    plainSpaces_withoutNoise (plainSpaces_nfc query)
  rw [normalizeQuery_eq_self_iff, ← composed_tidy hspaces]
  exact and_iff_left (clean_clean (U.nfc query))

/-! ## A letter with an accent -/

section Acute

def acuteClass (c : Char) : Nat := if c = '\u0301' ∨ c = '\u0653' then 230 else 0

def acuteParts (c : Char) : List Char := if c = '\u00e1' then ['a', '\u0301'] else [c]

def acuteComposite (c d : Char) : Option Char :=
  if c = 'a' ∧ d = '\u0301' then some '\u00e1' else none

theorem acuteComposite_eq_some {a b c : Char} (h : acuteComposite a b = some c) :
    a = 'a' ∧ b = '\u0301' ∧ c = '\u00e1' := by
  unfold acuteComposite at h
  split at h
  · next hab => exact ⟨hab.1, hab.2, (Option.some.inj h).symm⟩
  · cases h

theorem acuteParts_ne_nil (c : Char) : acuteParts c ≠ [] := by
  unfold acuteParts
  split <;> exact List.cons_ne_nil _ _

theorem acuteParts_part (c d : Char) (hd : d ∈ acuteParts c) : acuteParts d = [d] := by
  unfold acuteParts at hd
  split at hd
  · rcases List.mem_cons.mp hd with rfl | hd
    · rfl
    · rw [List.mem_singleton.mp hd]
      rfl
  · next hc =>
      rw [List.mem_singleton.mp hd]
      exact if_neg hc

theorem acuteParts_composite (a b c : Char) (h : acuteComposite a b = some c) :
    (acuteParts c).Perm (acuteParts a ++ acuteParts b) := by
  obtain ⟨rfl, rfl, rfl⟩ := acuteComposite_eq_some h
  exact List.Perm.refl _

/-- The tables of `a`, the acute accent, their composite and the maddah. -/
def acuteNormalization : NormalizationTables where
  combiningClass := acuteClass
  decomposition := acuteParts
  composite := acuteComposite
  decomposition_ne_nil := acuteParts_ne_nil
  decomposition_part := acuteParts_part
  decomposition_composite := acuteParts_composite

theorem acute_plain {c : Char} (hmark : acuteClass c = 0) (ha : c ≠ 'a')
    (hcomposite : c ≠ '\u00e1') : acuteNormalization.Plain c where
  starter := hmark
  decomposition := if_neg hcomposite
  composite_left := fun d => if_neg fun h => ha h.1
  composite_right := fun d => if_neg fun h => by
    rw [h.2] at hmark
    cases hmark

theorem acute_space {c : Char} (h : isSpace c = true) : acuteNormalization.Plain c := by
  refine acute_plain (if_neg ?_) ?_ ?_
  · rintro (rfl | rfl) <;> cases h
  · rintro rfl
    cases h
  · rintro rfl
    cases h

theorem acute_composite_not_space (a b c : Char) (h : acuteComposite a b = some c) :
    isSpace c = false := by
  rw [(acuteComposite_eq_some h).2.2]
  rfl

theorem acute_space_part (c : Char) (hspace : isSpace c = true) (hc : c ≠ ' ') :
    ∀ d ∈ acuteParts c, isSpace d = true ∧ d ≠ ' ' := by
  intro d hd
  have hparts : acuteParts c = [c] := (acute_space hspace).decomposition
  rw [hparts, List.mem_singleton] at hd
  exact hd ▸ ⟨hspace, hc⟩

theorem acute_letter_part (c : Char) (hc : translate c ≠ c) :
    acuteParts c = [c] ∧ acuteParts (translate c) = [translate c] := by
  refine ⟨if_neg ?_, ?_⟩
  · rintro rfl
    exact hc rfl
  · rcases translate_letter hc with hletter | hletter <;> rw [hletter] <;> rfl

def acute : QueryTables where
  toNormalizationTables := acuteNormalization
  plain_of_part := fun _ _ _ hspace => acute_space hspace
  not_space_of_composite := acute_composite_not_space
  plain_space := acute_space rfl
  plain_zwnj := acute_plain rfl (by decide) (by decide)
  space_part := acute_space_part
  letter_part := acute_letter_part

/-- A zero-width space keeps an accent from its letter until the query is normalised again. -/
theorem blocked_by_zero_width_space :
    normalizeQuery acute ['a', '\u200b', '\u0301'] = ['a', '\u0301'] ∧
      normalizeQuery acute (normalizeQuery acute ['a', '\u200b', '\u0301']) = ['\u00e1'] := by
  decide

end Acute

end SeoAgent.Normalization
