import Mathlib

/-!
# Canonical composition

Unicode's form NFC, over given tables. Characters are decomposed, the marks of a run are
ordered by their combining class, and each character is composed with the last starter before
it unless a character between them blocks it.

## Main results

* `weight_nfc` — what is counted over the parts of characters does not change.
* `nfc_append_plain` — a character that is in no composition cuts a text into two that are
  composed apart.
* `composed_append_plain` — and the text is composed if and only if both are.
-/

namespace SeoAgent.Verified

/-- The data of the characters: `decomposition` is the full canonical decomposition, and
`composite` is the primary composite of two characters. -/
structure NormalizationTables where
  combiningClass : Char → Nat
  decomposition : Char → List Char
  composite : Char → Char → Option Char
  decomposition_ne_nil : ∀ c, decomposition c ≠ []
  /-- Parts are not decomposed further. -/
  decomposition_part : ∀ c, ∀ d ∈ decomposition c, decomposition d = [d]
  /-- A composite has the parts of the two it is composed of. -/
  decomposition_composite : ∀ a b c, composite a b = some c →
    (decomposition c).Perm (decomposition a ++ decomposition b)

namespace NormalizationTables

variable (U : NormalizationTables)

/-! ## The three steps -/

/-- A mark comes before marks of the same class or a higher one; nothing is moved over a
starter. -/
def Before (c d : Char) : Prop :=
  U.combiningClass d = 0 ∨ U.combiningClass c ≤ U.combiningClass d

instance : DecidableRel U.Before := fun _ _ => inferInstanceAs (Decidable (_ ∨ _))

/-- The canonical order. -/
def order (s : List Char) : List Char := s.insertionSort U.Before

/-- The last of the marks after a starter does not block the character. -/
def reaches (marks : List Char) (c : Char) : Bool :=
  marks.getLast?.all fun m => U.combiningClass m < U.combiningClass c

/-- What a character is composed to with a starter, when nothing blocks it. -/
def joined (starter : Char) (marks : List Char) (c : Char) : Option Char :=
  if U.reaches marks c then U.composite starter c else none

/-- Composition after a starter that has marks which were not composed with it. -/
def composeFrom (starter : Char) (marks : List Char) : List Char → List Char
  | [] => starter :: marks
  | c :: s =>
      match U.joined starter marks c with
      | some joint => composeFrom joint marks s
      | none =>
          if U.combiningClass c = 0 then starter :: marks ++ composeFrom c [] s
          else composeFrom starter (marks ++ [c]) s

/-- Composition; marks before the first starter stay. -/
def compose : List Char → List Char
  | [] => []
  | c :: s => if U.combiningClass c = 0 then U.composeFrom c [] s else c :: compose s

/-- `unicodedata.normalize("NFC", s)`. -/
def nfc (s : List Char) : List Char := U.compose (U.order (s.flatMap U.decomposition))

/-- A text that is composed already. -/
def Composed (s : List Char) : Prop := U.nfc s = s

instance (s : List Char) : Decidable (U.Composed s) := inferInstanceAs (Decidable (_ = _))

section Joined
variable {U} {starter c joint : Char} {marks : List Char}

theorem composite_of_joined (h : U.joined starter marks c = some joint) :
    U.composite starter c = some joint := by
  unfold joined at h
  split at h
  · exact h
  · cases h

theorem joined_eq_none (h : U.composite starter c = none) :
    U.joined starter marks c = none := by
  unfold joined
  rw [h, ite_self]

end Joined

/-! ## Counting over the parts of characters -/

/-- A sum over the parts of the characters. -/
def weight (value : Char → Nat) (s : List Char) : Nat :=
  ((s.flatMap U.decomposition).map value).sum

section Weight
variable {U} {value : Char → Nat} {s t : List Char}

@[simp] theorem weight_nil : U.weight value [] = 0 := rfl

theorem weight_append (s t : List Char) :
    U.weight value (s ++ t) = U.weight value s + U.weight value t := by
  unfold weight
  rw [List.flatMap_append, List.map_append, List.sum_append]

theorem weight_cons (c : Char) (s : List Char) :
    U.weight value (c :: s) = U.weight value [c] + U.weight value s :=
  weight_append [c] s

theorem weight_perm (h : s.Perm t) : U.weight value s = U.weight value t :=
  ((h.flatMap_right U.decomposition).map value).sum_eq

theorem weight_pos (hvalue : ∀ c, 0 < value c) (hs : s ≠ []) : 0 < U.weight value s := by
  obtain ⟨c, rest, rfl⟩ := List.exists_cons_of_ne_nil hs
  obtain ⟨d, parts, hparts⟩ := List.exists_cons_of_ne_nil (U.decomposition_ne_nil c)
  unfold weight
  rw [List.flatMap_cons, hparts, List.cons_append, List.map_cons, List.sum_cons]
  exact Nat.add_pos_left (hvalue d) _

theorem weight_decomposed : U.weight value (s.flatMap U.decomposition) = U.weight value s := by
  have hparts : (s.flatMap U.decomposition).flatMap U.decomposition =
      s.flatMap U.decomposition := by
    rw [List.flatMap_assoc]
    refine List.flatMap_congr fun c _ => ?_
    calc (U.decomposition c).flatMap U.decomposition
        = (U.decomposition c).flatMap fun d => [d] :=
          List.flatMap_congr fun d hd => U.decomposition_part c d hd
      _ = U.decomposition c := List.flatMap_singleton' _
  unfold weight
  rw [hparts]

theorem weight_composite {a b c : Char} (h : U.composite a b = some c) :
    U.weight value [c] = U.weight value [a] + U.weight value [b] := by
  have hparts := ((U.decomposition_composite a b c h).map value).sum_eq
  rw [List.map_append, List.sum_append] at hparts
  simpa only [weight, List.flatMap_singleton] using hparts

theorem weight_composeFrom (starter : Char) (marks s : List Char) :
    U.weight value (U.composeFrom starter marks s) =
      U.weight value (starter :: marks) + U.weight value s := by
  induction s generalizing starter marks with
  | nil => rfl
  | cons c s ih =>
      rw [composeFrom, weight_cons c s]
      split
      · next joint hjoint =>
          rw [ih, weight_cons joint marks, weight_cons starter marks,
            weight_composite (composite_of_joined hjoint)]
          omega
      · split
        · rw [weight_append, ih]
        · rw [ih, ← List.cons_append, weight_append]
          omega

theorem weight_compose (s : List Char) :
    U.weight value (U.compose s) = U.weight value s := by
  induction s with
  | nil => rfl
  | cons c s ih =>
      rw [compose]
      split
      · rw [weight_composeFrom, weight_cons c s]
      · rw [weight_cons, ih, weight_cons c s]

/-- Less of a text weighs less, unless it is the text. -/
theorem weight_sublist (h : s.Sublist t) : U.weight value s ≤ U.weight value t := by
  induction h with
  | slnil => exact Nat.le_refl _
  | @cons s t c _ ih =>
      rw [weight_cons c t]
      exact Nat.le_add_left_of_le ih
  | @cons_cons s t c _ ih =>
      rw [weight_cons c s, weight_cons c t]
      exact Nat.add_le_add_left ih _

theorem eq_of_weight_sublist (hvalue : ∀ c, 0 < value c) (h : s.Sublist t)
    (hweight : U.weight value s = U.weight value t) : s = t := by
  induction h with
  | slnil => rfl
  | @cons s t c hsub ih =>
      have hle : U.weight value s ≤ U.weight value t := weight_sublist hsub
      have hpos : 0 < U.weight value [c] := weight_pos hvalue (List.cons_ne_nil c [])
      rw [weight_cons c t] at hweight
      omega
  | @cons_cons s t c _ ih =>
      rw [weight_cons c s, weight_cons c t] at hweight
      rw [ih (Nat.add_left_cancel hweight)]

/-- What is counted over the parts of characters does not change. -/
theorem weight_nfc (s : List Char) : U.weight value (U.nfc s) = U.weight value s := by
  rw [nfc, weight_compose, order, weight_perm (List.perm_insertionSort _ _), weight_decomposed]

end Weight

/-! ## What is in a composed text -/

section Members
variable {U} {P : Char → Prop} {starter : Char} {marks s : List Char}
  (hcomposite : ∀ a b c, U.composite a b = some c → P c)
include hcomposite

theorem forall_composeFrom (hstarter : P starter) (hmarks : ∀ c ∈ marks, P c)
    (hs : ∀ c ∈ s, P c) : ∀ c ∈ U.composeFrom starter marks s, P c := by
  induction s generalizing starter marks with
  | nil => exact List.forall_mem_cons.mpr ⟨hstarter, hmarks⟩
  | cons c s ih =>
      obtain ⟨hc, hrest⟩ := List.forall_mem_cons.mp hs
      rw [composeFrom]
      split
      · next joint hjoint =>
          exact ih (hcomposite _ _ _ (composite_of_joined hjoint)) hmarks hrest
      · split
        · exact List.forall_mem_append.mpr ⟨List.forall_mem_cons.mpr ⟨hstarter, hmarks⟩,
            ih hc (fun _ hd => absurd hd List.not_mem_nil) hrest⟩
        · refine ih hstarter (List.forall_mem_append.mpr ⟨hmarks, ?_⟩) hrest
          exact fun d hd => List.mem_singleton.mp hd ▸ hc

theorem forall_compose (hs : ∀ c ∈ s, P c) : ∀ c ∈ U.compose s, P c := by
  induction s with
  | nil => exact hs
  | cons c s ih =>
      obtain ⟨hc, hrest⟩ := List.forall_mem_cons.mp hs
      rw [compose]
      split
      · exact forall_composeFrom hcomposite hc (fun _ hd => absurd hd List.not_mem_nil) hrest
      · exact List.forall_mem_cons.mpr ⟨hc, ih hrest⟩

/-- The characters are parts of characters, and composites. -/
theorem forall_nfc (hparts : ∀ c, ∀ d ∈ U.decomposition c, P d) : ∀ c ∈ U.nfc s, P c := by
  refine forall_compose hcomposite fun c hc => ?_
  obtain ⟨d, -, hd⟩ := List.mem_flatMap.mp ((List.perm_insertionSort _ _).mem_iff.mp hc)
  exact hparts d c hd

end Members

/-! ## Characters in no composition -/

/-- A starter that is not decomposed and is in no composite. -/
structure Plain (c : Char) : Prop where
  starter : U.combiningClass c = 0
  decomposition : U.decomposition c = [c]
  composite_left : ∀ d, U.composite c d = none
  composite_right : ∀ d, U.composite d c = none

section Plain
variable {U} {w : Char} (hw : U.Plain w) (s t : List Char)
include hw

theorem orderedInsert_append_plain (c : Char) :
    (s ++ w :: t).orderedInsert U.Before c = s.orderedInsert U.Before c ++ w :: t := by
  induction s with
  | nil =>
      rw [List.nil_append, List.orderedInsert_cons_of_le _ _ (show U.Before c w from Or.inl hw.starter)]
      rfl
  | cons d s ih =>
      rw [List.cons_append, List.orderedInsert_cons, List.orderedInsert_cons]
      split
      · rfl
      · rw [ih, List.cons_append]

theorem order_append_plain : U.order (s ++ w :: t) = U.order s ++ w :: U.order t := by
  induction s with
  | nil =>
      change (U.order t).orderedInsert U.Before w = w :: U.order t
      cases U.order t with
      | nil => rfl
      | cons d rest =>
          rw [List.orderedInsert_cons_of_le _ _ (show U.Before w d from
            Or.inr (hw.starter ▸ Nat.zero_le _))]
  | cons c s ih =>
      change (U.order (s ++ w :: t)).orderedInsert U.Before c = _
      rw [ih, orderedInsert_append_plain hw]
      rfl

/-- Nothing is composed with a plain starter. -/
theorem composeFrom_plain (marks : List Char) :
    U.composeFrom w marks t = w :: marks ++ U.compose t := by
  induction t generalizing marks with
  | nil => rw [composeFrom, compose, List.append_nil]
  | cons c t ih =>
      rw [composeFrom, joined_eq_none (hw.composite_left c), compose]
      dsimp only
      split
      · rfl
      · rw [ih, List.cons_append, List.cons_append, List.append_assoc, List.singleton_append]

theorem composeFrom_append_plain (starter : Char) (marks : List Char) :
    U.composeFrom starter marks (s ++ w :: t) =
      U.composeFrom starter marks s ++ w :: U.compose t := by
  induction s generalizing starter marks with
  | nil =>
      change U.composeFrom starter marks (w :: t) = starter :: marks ++ w :: U.compose t
      rw [composeFrom, joined_eq_none (hw.composite_right starter)]
      dsimp only
      rw [if_pos hw.starter, composeFrom_plain hw]
      rfl
  | cons c s ih =>
      rw [List.cons_append, composeFrom, composeFrom]
      split
      · rw [ih]
      · split
        · rw [ih, List.append_assoc]
        · rw [ih]

theorem compose_append_plain : U.compose (s ++ w :: t) = U.compose s ++ w :: U.compose t := by
  induction s with
  | nil =>
      change U.compose (w :: t) = w :: U.compose t
      rw [compose, if_pos hw.starter, composeFrom_plain hw]
      rfl
  | cons c s ih =>
      rw [List.cons_append, compose, compose]
      split
      · rw [composeFrom_append_plain hw]
      · rw [ih, List.cons_append]

/-- A plain character cuts a text into two that are composed apart. -/
theorem nfc_append_plain : U.nfc (s ++ w :: t) = U.nfc s ++ w :: U.nfc t := by
  unfold nfc
  rw [List.flatMap_append, List.flatMap_cons, hw.decomposition, List.singleton_append,
    order_append_plain hw, compose_append_plain hw]

/-- A text is composed if and only if it is on both sides of a plain character. -/
theorem composed_append_plain : U.Composed (s ++ w :: t) ↔ U.Composed s ∧ U.Composed t := by
  unfold Composed
  rw [nfc_append_plain hw]
  constructor
  · intro h
    -- Were one side longer than it was, it would weigh more.
    have hnothing {rest : List Char} (hweight : U.weight (fun _ => 1) rest = 0) : rest = [] := by
      by_contra hne
      exact absurd hweight (weight_pos (fun _ => Nat.one_pos) hne).ne'
    have hs : U.nfc s = s := by
      rcases List.append_eq_append_iff.mp h with ⟨rest, hrest, -⟩ | ⟨rest, hrest, -⟩
      · have hweight := congrArg (U.weight fun _ => 1) hrest
        rw [weight_append, weight_nfc] at hweight
        rw [hnothing (show U.weight _ rest = 0 by omega), List.append_nil] at hrest
        exact hrest.symm
      · have hweight := congrArg (U.weight fun _ => 1) hrest
        rw [weight_append, weight_nfc] at hweight
        rw [hnothing (show U.weight _ rest = 0 by omega), List.append_nil] at hrest
        exact hrest
    rw [hs, List.append_cancel_left_eq, List.cons_inj_right] at h
    exact ⟨hs, h⟩
  · rintro ⟨hs, ht⟩
    rw [hs, ht]

omit hw in
theorem composed_nil : U.Composed [] := rfl

/-- Plain characters at the front do not matter. -/
theorem composed_cons_plain : U.Composed (w :: t) ↔ U.Composed t :=
  (composed_append_plain hw [] t).trans (and_iff_right composed_nil)

end Plain

end NormalizationTables

end SeoAgent.Verified
