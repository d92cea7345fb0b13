import SeoAgent.Normalization.CanonicalUrl
import SeoAgent.Verified.Like

/-!
# Searching the table of pages

The filter that `WarehouseReports._table` puts on the labels of a table
(`app/warehouse/reports.py`), for the text `_search_text` of `app/api/app.py` leaves. The
address of a page is stored as it was sent and shown percent-decoded, so the text is searched
as it was typed and percent-encoded. Encoding takes every character but letters, digits and
`/:?=&-._~`, whatever the stored address does with it.

## Main results

* `labelFilter_page` — the filter finds exactly the addresses that have the text, or the text
  percent-encoded, case aside.
* `found_of_plain`, `found_of_quoted` — an address without percent signs, and one that is
  encoded throughout the way the text is, is found by all that is shown of it.
* `page_search_iff` — an address is found by what is shown of it if and only if it spells that
  in one of two ways.
* `mixed_spelling_missed` — an encoded letter beside a comma is in neither.
-/

namespace SeoAgent.Warehouse

open SeoAgent.Verified Like Percent QueryString Lines
open SeoAgent.Normalization (canonicalizeUrl)

/-! ## The filter -/

/-- What a table lists. -/
inductive Kind where
  | page
  | query
  deriving DecidableEq, Repr

/-- `_search_text`. -/
def searchText (contains : Option (List Char)) : List Char :=
  (strip ((contains.getD []).filter (· ≠ '\x00'))).take 200

/-- `text.replace(c, replacement)` for one character. -/
def replaceChar (c : Char) (replacement text : List Char) : List Char :=
  text.flatMap fun d => if d = c then replacement else [d]

/-- `_like_pattern`. -/
def likePattern (text : List Char) : List Char :=
  let escaped := replaceChar '_' ['\\', '_'] (replaceChar '%' ['\\', '%']
    (replaceChar '\\' ['\\', '\\'] text))
  '%' :: (escaped ++ ['%'])

/-- What `quote` leaves as it is, with `safe="/:?=&-._~"`. -/
def pageSafe (c : Char) : Bool := isAlwaysSafe c || "/:?=&-._~".toList.contains c

/-- `quote(contains, safe="/:?=&-._~")`. -/
def quotePage (contains : List Char) : List Char := encode pageSafe contains

/-- The label filter of `_table`. -/
def labelFilter (C : CaseFold) (kind : Kind) (contains : Option (List Char))
    (label : List Char) : Bool :=
  match contains with
  | none => true
  | some contains =>
      contains.isEmpty || ilike C (likePattern contains) label ||
        (kind == .page && ilike C (likePattern (quotePage contains)) label)

/-- The text that `site_pages` hands on, `_search_text(contains) or None`. -/
def pagesContains (contains : Option (List Char)) : Option (List Char) :=
  if searchText contains = [] then none else some (searchText contains)

variable {C : CaseFold} {s url text stretch : List Char}

/-- One character after the other is escaped, and none twice. -/
theorem likePattern_eq (text : List Char) : likePattern text = anywhere text := by
  have hescape : replaceChar '_' ['\\', '_'] (replaceChar '%' ['\\', '%']
      (replaceChar '\\' ['\\', '\\'] text)) = escape text := by
    unfold replaceChar escape
    rw [List.flatMap_assoc, List.flatMap_assoc]
    refine List.flatMap_congr fun c _ => ?_
    by_cases hslash : c = '\\'
    · subst hslash
      rfl
    · by_cases hpercent : c = '%'
      · subst hpercent
        rfl
      · by_cases hunder : c = '_'
        · subst hunder
          rfl
        · simp [isSpecial, hslash, hpercent, hunder]
  rw [likePattern, hescape]
  rfl

theorem holds_nil (url : List Char) : Holds C url [] := List.nil_infix

/-- The filter on pages finds the addresses that have the text, or the text percent-encoded,
case aside. -/
theorem labelFilter_page (C : CaseFold) (s url : List Char) :
    labelFilter C .page (some s) url = true ↔ Holds C url s ∨ Holds C url (quotePage s) := by
  simp only [labelFilter, likePattern_eq, Bool.or_eq_true, beq_self_eq_true, Bool.true_and,
    ilike_anywhere, List.isEmpty_iff, or_assoc]
  constructor
  · rintro (rfl | h)
    · exact .inl (holds_nil url)
    · exact h
  · exact .inr

/-- The text that is searched is looked for in the same way, empty or not. -/
theorem labelFilter_pagesContains (C : CaseFold) (typed : Option (List Char)) (url : List Char) :
    labelFilter C .page (pagesContains typed) url = true ↔
      Holds C url (searchText typed) ∨ Holds C url (quotePage (searchText typed)) := by
  unfold pagesContains
  split
  · next hnil =>
      rw [hnil]
      exact ⟨fun _ => .inl (holds_nil url), fun _ => rfl⟩
  · exact labelFilter_page C _ url

/-! ## How an address spells a text -/

/-- A stretch of an address spells a text: the coded characters as the percent triples of
their bytes and the others as themselves, case aside. -/
inductive Spells (C : CaseFold) (coded : Char → Bool) : List Char → List Char → Prop
  | nil : Spells C coded [] []
  | plain {c d : Char} {text stretch : List Char} : coded c = false → C.fold d = C.fold c →
      Spells C coded text stretch → Spells C coded (c :: text) (d :: stretch)
  | triples {c : Char} {code text stretch : List Char} : coded c = true →
      code.map C.fold = (encodeChar c).map C.fold → Spells C coded text stretch →
      Spells C coded (c :: text) (code ++ stretch)

/-- The address spells a text in one of the two ways a search looks for: every character as
itself, or every character in percent triples but letters, digits and `/:?=&-._~`. -/
def SpeltOneWay (C : CaseFold) (url text : List Char) : Prop :=
  ∃ stretch, stretch <:+: url ∧
    (Spells C (fun _ => false) text stretch ∨ Spells C (fun c => !pageSafe c) text stretch)

theorem spells_iff {coded : Char → Bool} {text stretch : List Char} :
    Spells C coded text stretch ↔
      stretch.map C.fold = (encode (fun c => !coded c) text).map C.fold := by
  constructor
  · intro h
    induction h with
    | nil => rfl
    | plain hcoded hfold _ ih =>
        rw [encode_cons_safe (by rw [hcoded]; rfl), List.map_cons, List.map_cons, hfold, ih]
    | triples hcoded hcode _ ih =>
        rw [ encode_cons_unsafe (by rw [hcoded]; rfl), List.map_append, List.map_append, hcode, ih]
  · intro h
    induction text generalizing stretch with
    | nil =>
        rw [List.map_eq_nil_iff.mp h]
        exact .nil
    | cons c text ih =>
        cases hcoded : coded c with
        | false =>
            rw [encode_cons_safe (by rw [hcoded]; rfl)] at h
            obtain ⟨d, rest, rfl, hfold, hrest⟩ := List.map_eq_cons_iff.mp h
            exact .plain hcoded hfold (ih hrest)
        | true =>
            rw [ encode_cons_unsafe (by rw [hcoded]; rfl), List.map_append] at h
            obtain ⟨code, rest, rfl, hcode, hrest⟩ := List.map_eq_append_iff.mp h
            exact .triples hcoded hcode (ih hrest)

/-- An address has a text, case aside, where a stretch of it is the text, case aside. -/
theorem holds_iff_stretch : Holds C url text ↔
    ∃ stretch, stretch <:+: url ∧ stretch.map C.fold = text.map C.fold := by
  constructor
  · rintro ⟨before, after, heq⟩
    obtain ⟨front, rest, rfl, hfront, -⟩ := List.map_eq_append_iff.mp heq.symm
    obtain ⟨start, stretch, rfl, -, hstretch⟩ := List.map_eq_append_iff.mp hfront
    exact ⟨stretch, ⟨start, rest, rfl⟩, hstretch⟩
  · rintro ⟨stretch, hstretch, heq⟩
    unfold Holds
    rw [← heq]
    exact hstretch.map C.fold

theorem speltOneWay_iff :
    SpeltOneWay C url text ↔ Holds C url text ∨ Holds C url (quotePage text) := by
  have hplain : encode (fun _ => !false) text = text := encode_self fun _ _ => rfl
  have hquoted : encode (fun c => !!pageSafe c) text = quotePage text := by
    simp only [Bool.not_not]
    rfl
  unfold SpeltOneWay
  simp only [spells_iff, hplain, hquoted, and_or_left, exists_or, ← holds_iff_stretch]

/-! ## Addresses that are found -/

theorem quotePage_infix {part : List Char} (h : part <:+: text) :
    quotePage part <:+: quotePage text := by
  obtain ⟨before, after, rfl⟩ := h
  exact ⟨quotePage before, quotePage after, by simp only [quotePage, encode_append]⟩

/-- An address without percent signs is found by all that is shown of it. -/
theorem found_of_plain (hplain : '%' ∉ url) (hshown : s <:+: unquote url) :
    labelFilter C .page (some s) url = true := by
  rw [unquote, if_neg hplain] at hshown
  exact (labelFilter_page C s url).mpr (.inl (Holds.of_infix hshown))

theorem pageSafe_ascii {c : Char} (h : pageSafe c = true) : c.toNat < 128 ∧ c ≠ '%' := by
  rw [pageSafe, Bool.or_eq_true, List.contains_iff_mem] at h
  rcases h with h | h
  · exact isAlwaysSafe_ascii h
  · have hlist : "/:?=&-._~".toList = ['/', ':', '?', '=', '&', '-', '.', '_', '~'] := rfl
    rw [hlist] at h
    simp only [List.mem_cons, List.not_mem_nil, or_false] at h
    rcases h with rfl | rfl | rfl | rfl | rfl | rfl | rfl | rfl | rfl
    all_goals exact ⟨by decide, by decide⟩

/-- An address that is encoded the way the text is, as a search engine sends them, is found by
all that is shown of it. -/
theorem found_of_quoted (hshown : s <:+: unquote (quotePage text)) :
    labelFilter C .page (some s) (quotePage text) = true := by
  unfold quotePage at hshown
  rw [unquote_encode (fun _ => pageSafe_ascii)] at hshown
  exact (labelFilter_page C s _).mpr (.inr (Holds.of_infix ( quotePage_infix hshown)))

/-! ## All that is shown -/

/-- A canonical address is found by what is typed of what is shown of it, and no address is
found that has it neither as it is typed nor percent-encoded, if and only if the address spells
what is searched in one of two ways. -/
theorem page_search_iff (U : Url.Unicode) (C : CaseFold) : ∀ sent url typed,
    canonicalizeUrl U sent = some url → typed <:+: unquote url →
    ((labelFilter C .page (pagesContains (some typed)) url = true ∧
      ∀ other, labelFilter C .page (pagesContains (some typed)) other = true →
        Holds C other (searchText (some typed)) ∨
          Holds C other (quotePage (searchText (some typed)))) ↔
      SpeltOneWay C url (searchText (some typed))) := by
  intro sent url typed _ _
  rw [speltOneWay_iff]
  constructor
  · rintro ⟨hfound, -⟩
    exact (labelFilter_pagesContains C _ _).mp hfound
  · intro hspelt
    exact ⟨(labelFilter_pagesContains C _ _).mpr hspelt,
      fun other hfound => (labelFilter_pagesContains C _ _).mp hfound⟩

/-- Of an address with a Persian letter, encoded, and a comma, the comma is found. -/
theorem page_search_comma :
    labelFilter asciiFold .page (pagesContains (some [','])) "https://a/%D9%BE,1".toList = true ∧
    ∀ other, labelFilter asciiFold .page (pagesContains (some [','])) other = true →
      Holds asciiFold other (searchText (some [','])) ∨
        Holds asciiFold other (quotePage (searchText (some [',']))) := by
  have hcanon : canonicalizeUrl Url.ascii "https://a/%D9%BE,1".toList =
      some "https://a/%D9%BE,1".toList := by decide
  have hshown : [','] <:+: unquote "https://a/%D9%BE,1".toList := by decide
  refine (page_search_iff Url.ascii asciiFold _ _ _ hcanon hshown).mpr ?_
  refine ⟨[','], by decide, .inl ?_⟩
  exact .plain rfl rfl .nil

/-- An encoded letter beside a comma is shown with the comma, and is not found. -/
theorem mixed_spelling_missed : ¬∀ sent url typed,
    canonicalizeUrl Url.ascii sent = some url → typed <:+: unquote url →
    labelFilter asciiFold .page (pagesContains (some typed)) url = true ∧
      ∀ other, labelFilter asciiFold .page (pagesContains (some typed)) other = true →
        Holds asciiFold other (searchText (some typed)) ∨
          Holds asciiFold other (quotePage (searchText (some typed))) := by
  intro hall
  have hcanon : canonicalizeUrl Url.ascii "https://a/%D9%BE,1".toList =
      some "https://a/%D9%BE,1".toList := by decide
  have hshown : ['پ', ','] <:+: unquote "https://a/%D9%BE,1".toList := by decide
  have hfound := (hall _ _ _ hcanon hshown).1
  exact absurd ((labelFilter_pagesContains asciiFold _ _).mp hfound) (by decide)

end SeoAgent.Warehouse
