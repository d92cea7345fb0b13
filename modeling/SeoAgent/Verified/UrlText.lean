import SeoAgent.Verified.Lines
import SeoAgent.Verified.Url

/-!
# A URL put together from its parts

`urlunsplit` of a URL with a netloc and without a fragment. Parts as `urlsplit` gives them are
read back from the URL.

## Main results

* `netlocOf_unsplit`, `path_unsplit`, `query_unsplit` — the parts are read back.
* `strip_unsplit_path`, `strip_unsplit_netloc` — white space at the end of a URL is at the end
  of its path, or of its netloc.
-/

namespace SeoAgent.Verified.Url

open Lines

/-! ## The characters of the parts -/

section Characters
variable {url : List Char} {c : Char}

/-- What follows the scheme has none of the characters that are removed. -/
theorem kept_of_splitScheme (hc : c ∈ (splitScheme (cleaned url)).2) : isUnsafe c = false := by
  have hcleaned : c ∈ cleaned url := by
    unfold splitScheme at hc
    split at hc
    · next hdrop =>
        split at hc
        · exact mem_of_mem_dropWhile (hdrop ▸ List.mem_cons_of_mem _ hc)
        · exact hc
    · exact hc
  exact (Bool.not_eq_true' _).mp (List.mem_filter.mp hcleaned).2

/-- What the netloc of a URL is like. -/
theorem netlocOf_plain (h : c ∈ netlocOf url) : endsNetloc c = false ∧ isUnsafe c = false := by
  have hscheme : ∀ c ∈ (splitScheme (cleaned url)).2, isUnsafe c = false :=
    fun c hc => kept_of_splitScheme hc
  unfold netlocOf at h
  generalize (splitScheme (cleaned url)).2 = text at h hscheme
  unfold splitNetloc at h
  split at h
  · next rest =>
      exact ⟨(Bool.not_eq_true' _).mp (List.mem_takeWhile_imp (p := (!endsNetloc ·)) h), hscheme c
        (List.mem_cons_of_mem _ (List.mem_cons_of_mem _ (mem_of_mem_takeWhile h)))⟩
  · cases h

/-- What the path and the query of a URL are like. -/
theorem pathAndQuery_plain (h : c ∈ pathAndQuery url) : c ≠ '#' ∧ isUnsafe c = false := by
  refine ⟨of_decide_eq_true (List.mem_takeWhile_imp (p := (· ≠ '#')) h), ?_⟩
  have hafter : c ∈ (splitScheme (cleaned url)).2 := by
    have hmem := mem_of_mem_takeWhile h
    generalize (splitScheme (cleaned url)).2 = text at hmem
    unfold afterNetloc at hmem
    split at hmem
    · exact List.mem_cons_of_mem _ (List.mem_cons_of_mem _ (mem_of_mem_dropWhile hmem))
    · exact hmem
  exact kept_of_splitScheme hafter

theorem path_plain (h : c ∈ path url) : c ≠ '?' ∧ c ≠ '#' ∧ isUnsafe c = false :=
  ⟨of_decide_eq_true (List.mem_takeWhile_imp (p := (· ≠ '?')) h),
    pathAndQuery_plain (mem_of_mem_takeWhile h)⟩

end Characters

/-! ## Putting a URL together -/

/-- `urlunsplit`, for parts with a netloc and without a fragment. -/
def urlunsplit (scheme netloc path query : List Char) : List Char :=
  scheme ++ [':', '/', '/'] ++ netloc ++
    (if path ≠ [] ∧ path.head? ≠ some '/' then '/' :: path else path) ++
    (if query = [] then [] else '?' :: query)

def https : List Char := ['h', 't', 't', 'p', 's']

/-- Parts as `urlsplit` gives them. -/
structure Parts (netloc path query : List Char) : Prop where
  netloc : ∀ c ∈ netloc, endsNetloc c = false ∧ isUnsafe c = false
  slash : path = [] ∨ ∃ rest, path = '/' :: rest
  path : ∀ c ∈ path, c ≠ '?' ∧ c ≠ '#' ∧ isUnsafe c = false
  query : ∀ c ∈ query, c ≠ '#' ∧ isUnsafe c = false

/-- The query with its mark. -/
def marked (query : List Char) : List Char := if query = [] then [] else '?' :: query

section Unsplit
variable {netloc path query : List Char}

theorem urlunsplit_eq (h : Parts netloc path query) :
    urlunsplit https netloc path query =
      https ++ [':', '/', '/'] ++ (netloc ++ (path ++ marked query)) := by
  have hslash : ¬(path ≠ [] ∧ path.head? ≠ some '/') := by
    rintro ⟨hne, hhead⟩
    rcases h.slash with hnil | ⟨rest, rfl⟩
    · exact hne hnil
    · exact hhead rfl
  unfold urlunsplit marked
  rw [if_neg hslash]
  simp only [List.append_assoc]

theorem Parts.after (h : Parts netloc path query) :
    ∀ c ∈ path ++ marked query, c ≠ '#' ∧ isUnsafe c = false := by
  intro c hc
  rcases List.mem_append.mp hc with hc | hc
  · exact (h.path c hc).2
  · unfold marked at hc
    split at hc
    · cases hc
    · rcases List.mem_cons.mp hc with rfl | hc
      · exact ⟨by decide, by decide⟩
      · exact h.query c hc

theorem cleaned_unsplit (h : Parts netloc path query) :
    cleaned (urlunsplit https netloc path query) = urlunsplit https netloc path query := by
  have hself : (netloc ++ (path ++ marked query)).filter (!isUnsafe ·) =
      netloc ++ (path ++ marked query) := by
    rw [List.filter_eq_self]
    intro c hc
    rcases List.mem_append.mp hc with hc | hc
    · rw [(h.netloc c hc).2]
      rfl
    · rw [(h.after c hc).2]
      rfl
  have hscheme : (https ++ [':', '/', '/']).filter (!isUnsafe ·) = https ++ [':', '/', '/'] := by
    decide
  rw [urlunsplit_eq h, cleaned]
  show List.filter _ (https ++ [':', '/', '/'] ++ (netloc ++ (path ++ marked query))) = _
  rw [List.filter_append, hself, hscheme]

theorem splitScheme_unsplit (h : Parts netloc path query) :
    splitScheme (urlunsplit https netloc path query) =
      (https, '/' :: '/' :: (netloc ++ (path ++ marked query))) := by
  rw [urlunsplit_eq h]
  rfl

/-- The netloc ends where the path or the query begins. -/
theorem span_netloc (h : Parts netloc path query) :
    (netloc ++ (path ++ marked query)).takeWhile (!endsNetloc ·) = netloc ∧
      (netloc ++ (path ++ marked query)).dropWhile (!endsNetloc ·) = path ++ marked query := by
  have hnetloc : ∀ c ∈ netloc, (!endsNetloc c) = true := fun c hc => by
    rw [(h.netloc c hc).1]
    rfl
  rw [List.takeWhile_append_of_pos hnetloc, List.dropWhile_append_of_pos hnetloc]
  have hends : (path ++ marked query).takeWhile (!endsNetloc ·) = [] ∧
      (path ++ marked query).dropWhile (!endsNetloc ·) = path ++ marked query := by
    rcases h.slash with rfl | ⟨rest, rfl⟩
    · rw [List.nil_append]
      unfold marked
      split
      · exact ⟨rfl, rfl⟩
      · exact ⟨List.takeWhile_cons_of_neg (by decide), List.dropWhile_cons_of_neg (by decide)⟩
    · exact ⟨List.takeWhile_cons_of_neg (by decide), List.dropWhile_cons_of_neg (by decide)⟩
  rw [hends.1, hends.2, List.append_nil]
  exact ⟨rfl, rfl⟩

theorem netlocOf_unsplit (h : Parts netloc path query) :
    netlocOf (urlunsplit https netloc path query) = netloc := by
  rw [netlocOf, cleaned_unsplit h, splitScheme_unsplit h]
  exact (span_netloc h).1

theorem urlsplit_unsplit {U : Unicode} (h : Parts netloc path query) :
    urlsplit U (urlunsplit https netloc path query) =
      if U.allowed netloc = true then some ⟨https, netloc⟩ else none := by
  rw [urlsplit, netlocOf_unsplit h, cleaned_unsplit h, splitScheme_unsplit h]

theorem pathAndQuery_unsplit (h : Parts netloc path query) :
    pathAndQuery (urlunsplit https netloc path query) = path ++ marked query := by
  rw [pathAndQuery, cleaned_unsplit h, splitScheme_unsplit h]
  show ((netloc ++ (path ++ marked query)).dropWhile (!endsNetloc ·)).takeWhile (· ≠ '#') = _
  rw [(span_netloc h).2, List.takeWhile_eq_self_iff]
  exact fun c hc => decide_eq_true (h.after c hc).1

/-- The path ends where the mark of the query stands. -/
theorem span_path (h : Parts netloc path query) :
    (path ++ marked query).takeWhile (· ≠ '?') = path ∧
      (path ++ marked query).dropWhile (· ≠ '?') = marked query := by
  have hpath : ∀ c ∈ path, decide (c ≠ '?') = true := fun c hc =>
    decide_eq_true (h.path c hc).1
  rw [List.takeWhile_append_of_pos hpath, List.dropWhile_append_of_pos hpath]
  unfold marked
  split
  · exact ⟨List.append_nil _, rfl⟩
  · rw [List.takeWhile_cons_of_neg (by decide), List.dropWhile_cons_of_neg (by decide),
      List.append_nil]
    exact ⟨rfl, rfl⟩

theorem path_unsplit (h : Parts netloc path query) :
    Url.path (urlunsplit https netloc path query) = path := by
  rw [Url.path, pathAndQuery_unsplit h, (span_path h).1]

theorem query_unsplit (h : Parts netloc path query) :
    Url.query (urlunsplit https netloc path query) = query := by
  rw [Url.query, pathAndQuery_unsplit h, (span_path h).2]
  unfold marked
  split
  · next hnil => rw [hnil, List.drop_nil]
  · rfl

/-! ## White space at the end -/

/-- `rstrip`. -/
def rstrip (s : List Char) : List Char := s.rdropWhile Text.isSpace

theorem rdropWhile_append_of_ne_nil {p : Char → Bool} {s t : List Char}
    (h : t.rdropWhile p ≠ []) : (s ++ t).rdropWhile p = s ++ t.rdropWhile p := by
  unfold List.rdropWhile at h ⊢
  rw [ne_eq, List.reverse_eq_nil_iff] at h
  rw [List.reverse_append, List.dropWhile_append, if_neg, List.reverse_append, List.reverse_reverse]
  rwa [List.isEmpty_iff]

theorem rdropWhile_append_of_nil {p : Char → Bool} {s t : List Char}
    (h : t.rdropWhile p = []) : (s ++ t).rdropWhile p = s.rdropWhile p := by
  unfold List.rdropWhile at h ⊢
  rw [List.reverse_eq_nil_iff] at h
  rw [List.reverse_append, List.dropWhile_append, if_pos]
  rwa [List.isEmpty_iff]

/-- A text that begins with what is no white space is stripped at its end. -/
theorem strip_of_head {c : Char} {s : List Char} (hc : Text.isSpace c = false) :
    strip (c :: s) = rstrip (c :: s) := by
  unfold strip rstrip
  rw [List.dropWhile_cons_of_neg (by rw [hc]; exact Bool.false_ne_true)]

theorem rstrip_append {s t : List Char} (h : rstrip s = s) :
    rstrip (s ++ t) = s ++ rstrip t := by
  by_cases ht : rstrip t = []
  · rw [ht, List.append_nil]
    exact (rdropWhile_append_of_nil ht).trans h
  · exact rdropWhile_append_of_ne_nil ht

theorem strip_https (s : List Char) :
    strip (https ++ [':', '/', '/'] ++ s) = https ++ [':', '/', '/'] ++ rstrip s := by
  have hfront : rstrip (https ++ [':', '/', '/']) = https ++ [':', '/', '/'] := by decide
  show strip ('h' :: _) = _
  rw [strip_of_head (by decide)]
  exact rstrip_append hfront

theorem Parts.rstrip (h : Parts netloc path query) :
    Parts (Url.rstrip netloc) (Url.rstrip path) query := by
  have hsub : ∀ {s : List Char} {c : Char}, c ∈ Url.rstrip s → c ∈ s := fun hc =>
    (List.rdropWhile_prefix _ _).subset hc
  refine ⟨fun c hc => h.netloc c (hsub hc), ?_, fun c hc => h.path c (hsub hc), h.query⟩
  rcases h.slash with rfl | ⟨rest, rfl⟩
  · exact .inl rfl
  · have hslash : Url.rstrip ['/'] = ['/'] := by decide
    exact .inr ⟨Url.rstrip rest, rstrip_append hslash⟩

/-- White space at the end of a URL is at the end of the last of its parts. -/
theorem strip_unsplit (h : Parts netloc path query) :
    strip (urlunsplit https netloc path query) =
      https ++ [':', '/', '/'] ++ rstrip (netloc ++ (path ++ marked query)) := by
  rw [urlunsplit_eq h, strip_https]

/-- A URL without white space at its end is stripped of nothing. -/
theorem strip_unsplit_self (h : Parts netloc path query)
    (hend : rstrip (netloc ++ (path ++ marked query)) = netloc ++ (path ++ marked query)) :
    strip (urlunsplit https netloc path query) = urlunsplit https netloc path query := by
  rw [strip_unsplit h, hend, urlunsplit_eq h]

/-- A URL that ends with its path is stripped at the end of the path. -/
theorem strip_unsplit_path (h : Parts netloc path []) (hne : path ≠ []) :
    strip (urlunsplit https netloc path []) = urlunsplit https netloc (rstrip path) [] := by
  have hrest : rstrip path ≠ [] := by
    rcases h.slash with rfl | ⟨rest, rfl⟩
    · exact absurd rfl hne
    · have hslash : rstrip ['/'] = ['/'] := by decide
      have hself : rstrip ('/' :: rest) = '/' :: rstrip rest := rstrip_append hslash
      rw [hself]
      exact List.cons_ne_nil _ _
  have hparts : Parts netloc (rstrip path) [] := ⟨h.netloc, h.rstrip.slash, h.rstrip.path, nofun⟩
  have hnone : marked [] = [] := rfl
  rw [strip_unsplit h, urlunsplit_eq hparts, hnone, List.append_nil, List.append_nil]
  unfold rstrip at hrest ⊢
  rw [rdropWhile_append_of_ne_nil hrest]

/-- A URL that ends with its netloc is stripped at the end of the netloc. -/
theorem strip_unsplit_netloc (h : Parts netloc [] []) :
    strip (urlunsplit https netloc [] []) = urlunsplit https (rstrip netloc) [] [] := by
  have hparts : Parts (rstrip netloc) [] [] := h.rstrip
  have hnone : marked [] = [] := rfl
  rw [strip_unsplit h, urlunsplit_eq hparts, hnone, List.append_nil, List.append_nil,
    List.append_nil]

end Unsplit

end SeoAgent.Verified.Url
