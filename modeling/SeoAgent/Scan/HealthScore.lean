import SeoAgent.Scan.Store
import SeoAgent.Verified.Decimal
import SeoAgent.Verified.Table

/-!
# The health score

`health_score` of `app/scan/score.py`. Issues are counted by their code: each kind of problem
costs the weight of its worst severity, times the share of the pages it touches, and two
ceilings say what a sum of weights cannot. Penalties are exact fractions here; the score is
rounded at the end.

## Main results

* `entry_iff` — the table of kinds has, under each code, what the issues of that code say.
* `Worse.score_le` — issues that say the same or worse do not score higher.
* `healthScore_monotone` — the score is between 0 and 100, does not depend on the order or the
  repetition of the issues, and never rises when an issue is added or its severity is raised.
-/

namespace SeoAgent.Scan

open SeoAgent.Verified

/-! ## The score -/

/-- `WEIGHTS`. -/
def IssueSeverity.weight : IssueSeverity → ℚ
  | .critical => 15
  | .warning => 5
  | .info => 1

/-- `_RANK`. -/
def IssueSeverity.rank : IssueSeverity → Nat
  | .info => 0
  | .warning => 1
  | .critical => 2

/-- `FLOOR`. -/
def floorShare : ℚ := 2 / 5

/-- `NO_SCORE`. -/
def noScore : List String := ["home_unreachable"]

/-- `CLOSED_CEILING`. -/
def closedCeiling : Int := 10

/-- `CLOSED`. -/
def closed : List String := ["robots_blocks_everything", "robots_error"]

/-- `WIDESPREAD_CEILING`. -/
def widespreadCeiling : Int := 40

/-- `WIDESPREAD_SHARE`. -/
def widespreadShare : ℚ := 1 / 2

/-- `NOT_COUNTED`. -/
def notCounted : List String := ["page_no_answer"]

/-- What the score looks at of a `ScannedPage`. -/
structure ScannedPage where
  url : String
  statusCode : Option Nat := none
  deriving DecidableEq, Repr

/-- The page an issue is about; none for the site as a whole, or an empty address. -/
def ScanIssue.page (issue : ScanIssue) : Option String := issue.url.filter (· ≠ "")

/-- What is gathered of one kind of problem. -/
structure Kind where
  severity : IssueSeverity
  urls : Finset String
  siteWide : Bool
  deriving DecidableEq

/-- One issue more of a kind. -/
def Kind.add (kind : Kind) (issue : ScanIssue) : Kind where
  severity :=
    if kind.severity.rank < issue.severity.rank then issue.severity else kind.severity
  urls := match issue.page with
    | some url => insert url kind.urls
    | none => kind.urls
  siteWide := kind.siteWide || issue.page.isNone

/-- The body of the loop over the issues. -/
def addIssue (kinds : Table String Kind) (issue : ScanIssue) : Table String Kind :=
  if issue.code ∈ notCounted then kinds
  else
    let kind := (kinds.get? issue.code).getD ⟨issue.severity, ∅, false⟩
    kinds.put issue.code (kind.add issue)

/-- `kinds`. -/
def kindsOf (issues : List ScanIssue) : Table String Kind := issues.foldl addIssue []

/-- The pages that answered. -/
def answered (pages : List ScannedPage) : Nat := pages.countP (·.statusCode.isSome)

/-- The share of the pages that a kind touches. -/
def Kind.share (kind : Kind) (read : Nat) : ℚ :=
  if kind.siteWide then 1 else min 1 (kind.urls.card / read)

/-- What a kind costs. -/
def Kind.cost (kind : Kind) (read : Nat) : ℚ :=
  kind.severity.weight * max floorShare (kind.share read)

/-- A kind that keeps much of the site out of Google. -/
def Kind.Widespread (kind : Kind) (read : Nat) : Prop :=
  kind.severity = .critical ∧ ¬kind.siteWide ∧ widespreadShare ≤ kind.share read

instance (kind : Kind) (read : Nat) : Decidable (kind.Widespread read) :=
  inferInstanceAs (Decidable (_ ∧ _ ∧ _))

/-- The body of the loop over the kinds. -/
def charge (read : Nat) (sum : ℚ × Int) (kind : Kind) : ℚ × Int :=
  (sum.1 + kind.cost read,
    if kind.Widespread read then min sum.2 widespreadCeiling else sum.2)

/-- `round`: a tie goes to the even number. -/
def roundHalfEven (x : ℚ) : Int := TimeArith.divideNearest x.num x.den

/-- `health_score`. -/
def healthScore (issues : List ScanIssue) (pages : List ScannedPage) : Option Int :=
  if ∃ issue ∈ issues, issue.code ∈ noScore then none
  else
    let read := max 1 (answered pages)
    let sum := ((kindsOf issues).map Prod.snd).foldl (charge read) (0, 100)
    let ceiling := if ∃ issue ∈ issues, issue.code ∈ closed then min sum.2 closedCeiling else sum.2
    some (max 0 (min ceiling (roundHalfEven (100 - sum.1))))

/-! ## What is gathered -/

section Gathering
variable {issues issues' : List ScanIssue} {issue : ScanIssue} {code : String}
  {kind kind' : Kind}

/-- A kind says what the issues of its code say. -/
structure Gathers (issues : List ScanIssue) (code : String) (kind : Kind) : Prop where
  worst : ∃ issue ∈ issues, issue.code = code ∧ issue.severity = kind.severity
  severity : ∀ issue ∈ issues, issue.code = code → issue.severity.rank ≤ kind.severity.rank
  urls : ∀ url, url ∈ kind.urls ↔ ∃ issue ∈ issues, issue.code = code ∧ issue.page = some url
  siteWide : kind.siteWide = true ↔ ∃ issue ∈ issues, issue.code = code ∧ issue.page = none

theorem rank_injective {s t : IssueSeverity} (h : s.rank = t.rank) : s = t := by
  cases s <;> cases t <;> first | rfl | cases h

/-- The issues say what their kind is. -/
theorem Gathers.unique (h : Gathers issues code kind) (h' : Gathers issues code kind') :
    kind = kind' := by
  obtain ⟨severity, urls, siteWide⟩ := kind
  obtain ⟨severity', urls', siteWide'⟩ := kind'
  obtain ⟨issue, hmem, hcode, hseverity⟩ := h.worst
  obtain ⟨issue', hmem', hcode', hseverity'⟩ := h'.worst
  have hle := h'.severity issue hmem hcode
  have hle' := h.severity issue' hmem' hcode'
  rw [hseverity] at hle
  rw [hseverity'] at hle'
  have hrank : severity = severity' := rank_injective (le_antisymm hle hle')
  have hurls : urls = urls' := Finset.ext fun url => (h.urls url).trans (h'.urls url).symm
  have hwide : siteWide = siteWide' := Bool.eq_iff_iff.mpr (h.siteWide.trans h'.siteWide.symm)
  rw [hrank, hurls, hwide]

theorem Gathers.congr (h : ∀ issue, issue ∈ issues ↔ issue ∈ issues')
    (hgathers : Gathers issues code kind) : Gathers issues' code kind := by
  have hiff {P : ScanIssue → Prop} : (∃ issue ∈ issues, P issue) ↔ ∃ issue ∈ issues', P issue :=
    exists_congr fun issue => and_congr_left fun _ => h issue
  exact ⟨hiff.mp hgathers.worst, fun issue hmem => hgathers.severity issue ((h issue).mpr hmem),
    fun url => (hgathers.urls url).trans hiff, hgathers.siteWide.trans hiff⟩

/-- The first issue of a code. -/
theorem gathers_first (hnone : ∀ other ∈ issues, other.code ≠ issue.code) :
    Gathers (issues ++ [issue]) issue.code (Kind.add ⟨issue.severity, ∅, false⟩ issue) := by
  have honly : ∀ other ∈ issues ++ [issue], other.code = issue.code → other = issue := by
    intro other hmem hcode
    rcases List.mem_append.mp hmem with hmem | hmem
    · exact absurd hcode (hnone other hmem)
    · exact List.mem_singleton.mp hmem
  have hlast : issue ∈ issues ++ [issue] := List.mem_append_right _ (List.mem_singleton_self _)
  have hiff {P : ScanIssue → Prop} :
      (∃ other ∈ issues ++ [issue], other.code = issue.code ∧ P other) ↔ P issue :=
    ⟨fun ⟨other, hmem, hcode, hP⟩ => honly other hmem hcode ▸ hP, fun h => ⟨issue, hlast, rfl, h⟩⟩
  have hsame : (Kind.add ⟨issue.severity, ∅, false⟩ issue).severity = issue.severity :=
    if_neg (lt_irrefl _)
  refine ⟨hiff.mpr hsame.symm, fun other hmem hcode => ?_, fun url => ?_, ?_⟩
  · rw [hsame, honly other hmem hcode]
  · rw [hiff]
    unfold Kind.add
    cases issue.page with
    | none => simp
    | some page => simp [eq_comm]
  · rw [hiff]
    simp [Kind.add]

/-- One more issue of a code. -/
theorem Gathers.next (h : Gathers issues issue.code kind) :
    Gathers (issues ++ [issue]) issue.code (kind.add issue) := by
  have hiff {P : ScanIssue → Prop} :
      (∃ other ∈ issues ++ [issue], other.code = issue.code ∧ P other) ↔
        (∃ other ∈ issues, other.code = issue.code ∧ P other) ∨ P issue := by
    simp only [List.mem_append, List.mem_singleton, or_and_right, exists_or, exists_eq_left,
      true_and]
  refine ⟨hiff.mpr ?_, fun other hmem hcode => ?_, fun url => ?_, ?_⟩
  · unfold Kind.add
    dsimp only
    split
    · exact Or.inr rfl
    · exact Or.inl h.worst
  · have hrank : kind.severity.rank ≤ (kind.add issue).severity.rank ∧
        issue.severity.rank ≤ (kind.add issue).severity.rank := by
      unfold Kind.add
      dsimp only
      split <;> omega
    rcases List.mem_append.mp hmem with hmem | hmem
    · exact (h.severity other hmem hcode).trans hrank.1
    · rw [List.mem_singleton.mp hmem]
      exact hrank.2
  · rw [hiff, ← h.urls]
    unfold Kind.add
    cases issue.page with
    | none => simp
    | some page => simp [or_comm, eq_comm]
  · rw [hiff, ← h.siteWide]
    simp [Kind.add]

/-- An issue of another code. -/
theorem Gathers.other (h : Gathers issues code kind) (hne : issue.code ≠ code) :
    Gathers (issues ++ [issue]) code kind := by
  have hiff {P : ScanIssue → Prop} :
      (∃ other ∈ issues ++ [issue], other.code = code ∧ P other) ↔
        ∃ other ∈ issues, other.code = code ∧ P other := by
    simp only [List.mem_append, List.mem_singleton, or_and_right, exists_or, exists_eq_left,
      hne, false_and, or_false]
  refine ⟨hiff.mpr h.worst, fun other hmem hcode => ?_, fun url => (h.urls url).trans hiff.symm,
    h.siteWide.trans hiff.symm⟩
  rcases List.mem_append.mp hmem with hmem | hmem
  · exact h.severity other hmem hcode
  · exact absurd (List.mem_singleton.mp hmem ▸ hcode) hne

theorem kindsOf_append (issues : List ScanIssue) (issue : ScanIssue) :
    kindsOf (issues ++ [issue]) = addIssue (kindsOf issues) issue := by
  rw [kindsOf, List.foldl_append]
  rfl

/-- The table has, under each code that is counted, what its issues say. -/
theorem get?_kindsOf (issues : List ScanIssue) (code : String) :
    match (kindsOf issues).get? code with
    | none => code ∈ notCounted ∨ ∀ issue ∈ issues, issue.code ≠ code
    | some kind => code ∉ notCounted ∧ Gathers issues code kind := by
  induction issues using List.reverseRecOn with
  | nil => exact Or.inr fun _ h => absurd h List.not_mem_nil
  | append_singleton issues issue ih =>
      have hkept (hother : issue.code ≠ code ∨ code ∈ notCounted) :
          match (kindsOf issues).get? code with
          | none => code ∈ notCounted ∨ ∀ other ∈ issues ++ [issue], other.code ≠ code
          | some kind => code ∉ notCounted ∧ Gathers (issues ++ [issue]) code kind := by
        cases hfound : (kindsOf issues).get? code with
        | none =>
            rw [hfound] at ih
            rcases hother with hne | hnot
            · refine ih.imp_right fun hnone => List.forall_mem_append.mpr ⟨hnone, fun other h => ?_⟩
              rw [List.mem_singleton.mp h]
              exact hne
            · exact Or.inl hnot
        | some kind =>
            rw [hfound] at ih
            exact ⟨ih.1, ih.2.other (hother.resolve_right ih.1)⟩
      rw [kindsOf_append, addIssue]
      by_cases hnot : issue.code ∈ notCounted
      · rw [if_pos hnot]
        exact hkept (Classical.or_iff_not_imp_left.mpr fun h => not_not.mp h ▸ hnot)
      · rw [if_neg hnot]
        by_cases hcode : issue.code = code
        · subst hcode
          rw [Table.get?_put, if_pos rfl]
          refine ⟨hnot, ?_⟩
          cases hfound : (kindsOf issues).get? issue.code with
          | none =>
              rw [hfound] at ih
              exact gathers_first (ih.resolve_left hnot)
          | some kind =>
              rw [hfound] at ih
              exact ih.2.next
        · rw [Table.get?_put, if_neg (Ne.symm hcode)]
          exact hkept (Or.inl hcode)

/-- The table has, under each code, what the issues of that code say. -/
theorem entry_iff : (kindsOf issues).get? code = some kind ↔
    code ∉ notCounted ∧ Gathers issues code kind := by
  have hspec := get?_kindsOf issues code
  constructor
  · intro h
    rw [h] at hspec
    exact hspec
  · rintro ⟨hcounted, hgathers⟩
    cases hfound : (kindsOf issues).get? code with
    | none =>
        rw [hfound] at hspec
        obtain ⟨issue, hmem, hcode, -⟩ := hgathers.worst
        exact absurd hcode (hspec.resolve_left hcounted issue hmem)
    | some found =>
        rw [hfound] at hspec
        rw [hspec.2.unique hgathers]

theorem nodup_kindsOf (issues : List ScanIssue) : ((kindsOf issues).map Prod.fst).Nodup := by
  induction issues using List.reverseRecOn with
  | nil => exact List.nodup_nil
  | append_singleton issues issue ih =>
      rw [kindsOf_append, addIssue]
      split
      · exact ih
      · exact Table.nodup_put ih

end Gathering

/-! ## What it costs -/

section Costs
variable {kind kind' : Kind} {read : Nat}

theorem weight_pos (severity : IssueSeverity) : 0 < severity.weight := by
  cases severity <;> norm_num [IssueSeverity.weight]

theorem weight_mono {s t : IssueSeverity} (h : s.rank ≤ t.rank) : s.weight ≤ t.weight := by
  revert h
  cases s <;> cases t <;> norm_num [IssueSeverity.rank, IssueSeverity.weight]

theorem cost_nonneg (kind : Kind) (read : Nat) : 0 ≤ kind.cost read :=
  mul_nonneg (weight_pos _).le (le_max_of_le_left (by norm_num [floorShare]))

/-- A kind that is as bad as another, or worse. -/
structure Kind.Le (kind kind' : Kind) : Prop where
  severity : kind.severity.rank ≤ kind'.severity.rank
  urls : kind.urls ⊆ kind'.urls
  siteWide : kind.siteWide = kind'.siteWide

theorem Kind.Le.share_le (h : kind.Le kind') : kind.share read ≤ kind'.share read := by
  unfold Kind.share
  rw [h.siteWide]
  split
  · exact le_refl _
  · have hcard : (kind.urls.card : ℚ) ≤ kind'.urls.card := by
      exact_mod_cast Finset.card_le_card h.urls
    exact min_le_min_left 1 (div_le_div_of_nonneg_right hcard (Nat.cast_nonneg read))

theorem Kind.Le.cost_le (h : kind.Le kind') : kind.cost read ≤ kind'.cost read :=
  mul_le_mul (weight_mono h.severity) (max_le_max_left _ h.share_le)
    (le_max_of_le_left (by norm_num [floorShare])) (weight_pos _).le

theorem Kind.Le.widespread (h : kind.Le kind') (hwide : kind.Widespread read) :
    kind'.Widespread read := by
  obtain ⟨hcritical, hpages, hshare⟩ := hwide
  refine ⟨?_, h.siteWide ▸ hpages, hshare.trans h.share_le⟩
  have hrank := h.severity
  rw [hcritical] at hrank
  cases hseverity : kind'.severity with
  | critical => rfl
  | warning =>
      rw [hseverity] at hrank
      exact absurd hrank (by decide)
  | info =>
      rw [hseverity] at hrank
      exact absurd hrank (by decide)

/-- The loop over the kinds adds their costs, and lowers the ceiling for one that is
widespread. -/
theorem foldl_charge (kinds : List Kind) (sum : ℚ × Int) :
    kinds.foldl (charge read) sum =
      (sum.1 + (kinds.map (·.cost read)).sum,
        if ∃ kind ∈ kinds, kind.Widespread read then min sum.2 widespreadCeiling else sum.2) := by
  induction kinds generalizing sum with
  | nil => simp
  | cons kind kinds ih =>
      rw [List.foldl_cons, ih, charge]
      by_cases hfirst : kind.Widespread read
      · simp [hfirst, add_assoc]
      · simp [hfirst, add_assoc]

end Costs

/-! ## Issues that say worse -/

section Worse
variable {issues issues' : List ScanIssue} {pages pages' : List ScannedPage}
  {score score' : Int}

/-- Each code is used either always with a page or never. -/
def Consistent (issues : List ScanIssue) : Prop :=
  ∀ issue ∈ issues, ∀ other ∈ issues, issue.code = other.code →
    issue.page.isSome = other.page.isSome

instance (issues : List ScanIssue) : Decidable (Consistent issues) :=
  inferInstanceAs (Decidable (∀ issue ∈ issues, ∀ other ∈ issues, _ → _))

/-- Whatever the first say the second say too, as severely or more. -/
def Worse (issues issues' : List ScanIssue) : Prop :=
  ∀ issue ∈ issues, ∃ other ∈ issues', other.code = issue.code ∧ other.page = issue.page ∧
    issue.severity.rank ≤ other.severity.rank

/-- What the kinds cost together. -/
def penalty (issues : List ScanIssue) (read : Nat) : ℚ :=
  ((kindsOf issues).map fun entry => entry.2.cost read).sum

/-- One of the kinds is widespread. -/
def AnyWidespread (issues : List ScanIssue) (read : Nat) : Prop :=
  ∃ kind ∈ (kindsOf issues).map Prod.snd, kind.Widespread read

instance (issues : List ScanIssue) (read : Nat) : Decidable (AnyWidespread issues read) :=
  inferInstanceAs (Decidable (∃ kind ∈ _, _))

/-- Google is kept out of the whole site. -/
def Closed (issues : List ScanIssue) : Prop := ∃ issue ∈ issues, issue.code ∈ closed

instance (issues : List ScanIssue) : Decidable (Closed issues) :=
  inferInstanceAs (Decidable (∃ issue ∈ _, _))

/-- The highest score that the issues leave. -/
def ceilingOf (issues : List ScanIssue) (read : Nat) : Int :=
  let ceiling := if AnyWidespread issues read then min 100 widespreadCeiling else 100
  if Closed issues then min ceiling closedCeiling else ceiling

theorem ceilingOf_le_100 (issues : List ScanIssue) (read : Nat) : ceilingOf issues read ≤ 100 := by
  unfold ceilingOf widespreadCeiling closedCeiling
  dsimp only
  split <;> split <;> omega

theorem healthScore_eq_some : healthScore issues pages = some score ↔
    (¬∃ issue ∈ issues, issue.code ∈ noScore) ∧
      max 0 (min (ceilingOf issues (max 1 (answered pages)))
        (roundHalfEven (100 - penalty issues (max 1 (answered pages))))) = score := by
  unfold healthScore
  split
  · next hnone => simp [hnone]
  · next hscore =>
      dsimp only
      rw [foldl_charge, zero_add, List.map_map, Option.some_inj]
      exact (and_iff_right hscore).symm

theorem entry_widespread {read : Nat} : AnyWidespread issues read ↔
    ∃ code kind, (kindsOf issues).get? code = some kind ∧ kind.Widespread read := by
  constructor
  · rintro ⟨kind, hmem, hwide⟩
    obtain ⟨entry, hentry, rfl⟩ := List.mem_map.mp hmem
    exact ⟨entry.1, entry.2, Table.get?_of_mem (nodup_kindsOf issues) hentry, hwide⟩
  · rintro ⟨code, kind, hfound, hwide⟩
    exact ⟨kind, List.mem_map.mpr ⟨(code, kind), Table.mem_of_get? hfound, rfl⟩, hwide⟩

/-- Under every code the worse issues have a kind that is as bad, or worse. -/
theorem Worse.entry (h : Worse issues issues') (hconsistent : Consistent issues')
    {code : String} {kind : Kind} (hfound : (kindsOf issues).get? code = some kind) :
    ∃ kind', (kindsOf issues').get? code = some kind' ∧ kind.Le kind' := by
  obtain ⟨hcounted, hgathers⟩ := entry_iff.mp hfound
  obtain ⟨issue, hmem, hcode, hseverity⟩ := hgathers.worst
  obtain ⟨other, hother, hothercode, hotherpage, hrank⟩ := h issue hmem
  have hspec := get?_kindsOf issues' code
  cases hfound' : (kindsOf issues').get? code with
  | none =>
      rw [hfound'] at hspec
      exact absurd (hothercode.trans hcode) (hspec.resolve_left hcounted other hother)
  | some kind' =>
      rw [hfound'] at hspec
      have hgathers' := hspec.2
      refine ⟨kind', rfl, ?_, fun url hurl => ?_, Bool.eq_iff_iff.mpr ?_⟩
      · rw [← hseverity]
        exact hrank.trans (hgathers'.severity other hother (hothercode.trans hcode))
      · obtain ⟨first, hfirst, hfirstcode, hpage⟩ := (hgathers.urls url).mp hurl
        obtain ⟨second, hsecond, hsame, hsamepage, -⟩ := h first hfirst
        exact (hgathers'.urls url).mpr
          ⟨second, hsecond, hsame.trans hfirstcode, hsamepage.trans hpage⟩
      · rw [hgathers.siteWide, hgathers'.siteWide]
        constructor
        · rintro ⟨first, hfirst, hfirstcode, hpage⟩
          obtain ⟨second, hsecond, hsame, hsamepage, -⟩ := h first hfirst
          exact ⟨second, hsecond, hsame.trans hfirstcode, hsamepage.trans hpage⟩
        · -- One issue of the code has no page, so none has.
          rintro ⟨second, hsecond, hsecondcode, hpage⟩
          have hsome := hconsistent other hother second hsecond
            ((hothercode.trans hcode).trans hsecondcode.symm)
          rw [hpage, hotherpage] at hsome
          exact ⟨issue, hmem, hcode, Option.not_isSome_iff_eq_none.mp (Bool.eq_false_iff.mp hsome)⟩

theorem Worse.penalty_le (h : Worse issues issues') (hconsistent : Consistent issues')
    (read : Nat) : penalty issues read ≤ penalty issues' read := by
  refine Table.sum_le_sum (nodup_kindsOf issues) (nodup_kindsOf issues') (·.cost read)
    (fun kind => cost_nonneg kind read) fun code kind hfound => ?_
  obtain ⟨kind', hfound', hle⟩ := h.entry hconsistent hfound
  exact ⟨kind', hfound', hle.cost_le⟩

theorem Worse.ceilingOf_le (h : Worse issues issues') (hconsistent : Consistent issues')
    (read : Nat) : ceilingOf issues' read ≤ ceilingOf issues read := by
  have hwide : AnyWidespread issues read → AnyWidespread issues' read := by
    intro hwide
    obtain ⟨code, kind, hfound, hwide⟩ := entry_widespread.mp hwide
    obtain ⟨kind', hfound', hle⟩ := h.entry hconsistent hfound
    exact entry_widespread.mpr ⟨code, kind', hfound', hle.widespread hwide⟩
  have hclosed : Closed issues → Closed issues' := by
    rintro ⟨issue, hmem, hcode⟩
    obtain ⟨other, hother, hsame, -⟩ := h issue hmem
    exact ⟨other, hother, hsame.symm ▸ hcode⟩
  unfold ceilingOf widespreadCeiling closedCeiling
  dsimp only
  split
  · split
    · split <;> split <;> omega
    · split <;> split <;> omega
  · next hopen =>
      rw [if_neg fun hclosed' => hopen (hclosed hclosed')]
      split
      · split <;> omega
      · next hnarrow => rw [if_neg fun hwide' => hnarrow (hwide hwide')]

theorem roundHalfEven_mono {x y : ℚ} (h : x ≤ y) : roundHalfEven x ≤ roundHalfEven y := by
  have hround : roundTo 0 x ≤ roundTo 0 y := roundTo_mono h
  unfold roundTo at hround
  simp only [pow_zero, div_one, mul_one] at hround
  exact_mod_cast hround

/-- Issues that say the same or worse do not score higher. -/
theorem Worse.score_le (h : Worse issues issues') (hconsistent : Consistent issues')
    (hpages : answered pages = answered pages') (hscore : healthScore issues pages = some score)
    (hscore' : healthScore issues' pages' = some score') : score' ≤ score := by
  obtain ⟨-, rfl⟩ := healthScore_eq_some.mp hscore
  obtain ⟨-, rfl⟩ := healthScore_eq_some.mp hscore'
  rw [← hpages]
  exact max_le_max_left 0 (min_le_min (h.ceilingOf_le hconsistent _)
    (roundHalfEven_mono (sub_le_sub_left (h.penalty_le hconsistent _) 100)))

/-- Issues that are the same, in whatever order and however often, have the same kinds. -/
theorem get?_congr (h : ∀ issue, issue ∈ issues ↔ issue ∈ issues') (code : String) :
    (kindsOf issues).get? code = (kindsOf issues').get? code := by
  refine Option.ext fun kind => ?_
  rw [entry_iff, entry_iff]
  exact and_congr_right fun _ =>
    ⟨Gathers.congr h, Gathers.congr fun issue => (h issue).symm⟩

theorem penalty_congr (h : ∀ issue, issue ∈ issues ↔ issue ∈ issues') (read : Nat) :
    penalty issues read = penalty issues' read := by
  have hle {first second : List ScanIssue}
      (hsame : ∀ code, (kindsOf first).get? code = (kindsOf second).get? code) :
      penalty first read ≤ penalty second read :=
    Table.sum_le_sum (nodup_kindsOf first) (nodup_kindsOf second) (·.cost read)
      (fun kind => cost_nonneg kind read) fun code kind hfound =>
        ⟨kind, (hsame code).symm.trans hfound, le_refl _⟩
  exact le_antisymm (hle (get?_congr h)) (hle fun code => (get?_congr h code).symm)

theorem healthScore_congr (h : ∀ issue, issue ∈ issues ↔ issue ∈ issues') :
    healthScore issues pages = healthScore issues' pages := by
  have hany (codes : List String) : (∃ issue ∈ issues, issue.code ∈ codes) ↔
      ∃ issue ∈ issues', issue.code ∈ codes :=
    exists_congr fun issue => and_congr_left fun _ => h issue
  have hceiling (read : Nat) : ceilingOf issues read = ceilingOf issues' read := by
    have hwide : AnyWidespread issues read ↔ AnyWidespread issues' read := by
      simp only [entry_widespread, get?_congr h]
    simp only [ceilingOf, hwide, show Closed issues ↔ Closed issues' from hany closed]
  refine Option.ext fun score => ?_
  rw [healthScore_eq_some, healthScore_eq_some,
    hany noScore, hceiling, penalty_congr h]

/-- Severities do not matter to the use of codes. -/
theorem Consistent.raised {before after : List ScanIssue} {issue : ScanIssue}
    (h : Consistent (before ++ issue :: after)) (severity : IssueSeverity) :
    Consistent (before ++ { issue with severity := severity } :: after) := by
  have horiginal : ∀ other ∈ before ++ { issue with severity := severity } :: after,
      ∃ first ∈ before ++ issue :: after, first.code = other.code ∧ first.page = other.page := by
    intro other hmem
    rcases List.mem_append.mp hmem with hmem | hmem
    · exact ⟨other, List.mem_append_left _ hmem, rfl, rfl⟩
    · rcases List.mem_cons.mp hmem with rfl | hmem
      · exact ⟨issue, List.mem_append_right _ List.mem_cons_self, rfl, rfl⟩
      · exact ⟨other, List.mem_append_right _ (List.mem_cons_of_mem _ hmem), rfl, rfl⟩
  intro other hother another hanother hcode
  obtain ⟨first, hfirst, hfirstcode, hfirstpage⟩ := horiginal other hother
  obtain ⟨second, hsecond, hsecondcode, hsecondpage⟩ := horiginal another hanother
  rw [← hfirstpage, ← hsecondpage]
  exact h first hfirst second hsecond (hfirstcode.trans (hcode.trans hsecondcode.symm))

/-- Issues with one that is more severe say worse. -/
theorem worse_raised {before after : List ScanIssue} {issue : ScanIssue}
    {severity : IssueSeverity} (h : issue.severity.rank ≤ severity.rank) :
    Worse (before ++ issue :: after) (before ++ { issue with severity := severity } :: after) := by
  intro other hmem
  rcases List.mem_append.mp hmem with hmem | hmem
  · exact ⟨other, List.mem_append_left _ hmem, rfl, rfl, le_refl _⟩
  · rcases List.mem_cons.mp hmem with rfl | hmem
    · exact ⟨_, List.mem_append_right _ List.mem_cons_self, rfl, rfl, h⟩
    · exact ⟨other, List.mem_append_right _ (List.mem_cons_of_mem _ hmem), rfl, rfl, le_refl _⟩

end Worse

/-- The score is between 0 and 100, does not depend on the order or the repetition of the
issues, and never rises when an issue is added, or one is more severe, and as many pages
answer. -/
theorem healthScore_monotone :
    (∀ issues pages score, healthScore issues pages = some score → 0 ≤ score ∧ score ≤ 100) ∧
    (∀ issues issues' pages, (∀ issue, issue ∈ issues ↔ issue ∈ issues') →
      healthScore issues pages = healthScore issues' pages) ∧
    (∀ before issue after pages pages' score score',
      Consistent (before ++ issue :: after) → answered pages = answered pages' →
      healthScore (before ++ after) pages = some score →
      healthScore (before ++ issue :: after) pages' = some score' → score' ≤ score) ∧
    (∀ before (issue : ScanIssue) after severity pages pages' score score',
      issue.severity.rank ≤ severity.rank →
      Consistent (before ++ issue :: after) → answered pages = answered pages' →
      healthScore (before ++ issue :: after) pages = some score →
      healthScore (before ++ { issue with severity := severity } :: after) pages' = some score' →
      score' ≤ score) := by
  refine ⟨fun issues pages score hscore => ?_, fun issues issues' pages h => healthScore_congr h,
    fun before issue after pages pages' score score' hconsistent hpages hscore hscore' => ?_,
    fun before issue after severity pages pages' score score' hrank hconsistent hpages hscore
      hscore' => ?_⟩
  · obtain ⟨-, rfl⟩ := healthScore_eq_some.mp hscore
    exact ⟨le_max_left _ _, max_le (by norm_num) ((min_le_left _ _).trans (ceilingOf_le_100 _ _))⟩
  · refine Worse.score_le (fun other hmem => ⟨other, ?_, rfl, rfl, le_refl _⟩) hconsistent hpages
      hscore hscore'
    exact List.mem_append.mpr ((List.mem_append.mp hmem).imp_right (List.mem_cons_of_mem _))
  · exact (worse_raised hrank).score_le (hconsistent.raised severity) hpages hscore hscore'

/-- A page without a title; with one that has no description beside it; and with the missing
title more severe. -/
theorem healthScore_monotone_shop :
    (∃ score, healthScore [⟨"missing_title", .critical, some "/a"⟩] [⟨"/a", some 200⟩] =
      some score ∧ 0 ≤ score ∧ score ≤ 100) ∧
    (∀ score score',
      healthScore [⟨"missing_title", .critical, some "/a"⟩] [⟨"/a", some 200⟩] = some score →
      healthScore [⟨"missing_description", .warning, some "/b"⟩,
        ⟨"missing_title", .critical, some "/a"⟩] [⟨"/b", some 404⟩] = some score' →
      score' ≤ score) ∧
    (∀ score score', healthScore [⟨"missing_title", .info, some "/a"⟩] [⟨"/a", some 200⟩] =
        some score →
      healthScore [⟨"missing_title", .critical, some "/a"⟩] [⟨"/a", some 200⟩] = some score' →
      score' ≤ score) := by
  obtain ⟨hrange, -, hadd, hraise⟩ := healthScore_monotone
  refine ⟨?_, fun score score' => ?_, fun score score' => ?_⟩
  · obtain ⟨score, hscore⟩ : ∃ score, healthScore [⟨"missing_title", .critical, some "/a"⟩]
        [⟨"/a", some 200⟩] = some score := ⟨_, rfl⟩
    exact ⟨score, hscore, hrange _ _ _ hscore⟩
  · exact hadd [] _ [⟨"missing_title", .critical, some "/a"⟩] _ _ _ _ (by decide) (by decide)
  · exact hraise [] ⟨"missing_title", .info, some "/a"⟩ [] .critical _ _ _ _ (by decide)
      (by decide) (by decide)

end SeoAgent.Scan
