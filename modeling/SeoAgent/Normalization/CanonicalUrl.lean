import SeoAgent.Verified.Netloc
import SeoAgent.Verified.PosixPath
import SeoAgent.Verified.QueryString
import SeoAgent.Verified.UrlText

/-!
# The canonical form of a URL

`canonicalize_url` of `app/normalization/url.py`: `https`, the host in lower case, the port
unless it is the default one of the scheme, the path without double slashes and dots, and the
parameters that track nobody, in order. `none` is a `ValueError`.

## Main results

* `normalizePath_normalizePath` — a path is normalised once.
* `keptPairs_urlencode` — the parameters that are kept are kept again.
-/

namespace SeoAgent.Normalization

open SeoAgent.Verified Lines PosixPath QueryString

/-! ## The parts of a URL -/

/-- `TRACKING_QUERY_PARAM_EXACT`. -/
def trackingQueryParamExact : List (List Char) :=
  ["gclid", "fbclid", "dclid", "msclkid", "yclid", "mc_cid", "mc_eid"].map String.toList

/-- `_is_tracking_parameter`. -/
def isTrackingParameter (U : Url.Unicode) (name : List Char) : Bool :=
  let normalizedName := U.lower (strip name)
  trackingQueryParamExact.contains normalizedName || "utm_".toList.isPrefixOf normalizedName

/-- `MULTI_SLASH_RE.sub("/", path)`. -/
def collapseSlashes : List Char → List Char
  | [] => []
  | c :: s => if c = '/' ∧ s.head? = some '/' then collapseSlashes s else c :: collapseSlashes s

/-- `_normalize_path`. -/
def normalizePath (path : List Char) : List Char :=
  if path = [] then []
  else
    let path := collapseSlashes path
    let normalized := normpath path
    let normalized := if normalized.head? = some '/' then normalized else '/' :: normalized
    if path = ['/'] then ['/']
    else if path.getLast? = some '/' ∧ normalized ≠ ['/'] then normalized ++ ['/']
    else normalized

/-- The host as the canonical URL has it. -/
def hostText (U : Url.Unicode) (hostname : List Char) : List Char :=
  if ':' ∈ hostname ∧ hostname.head? ≠ some '[' then '[' :: U.lower hostname ++ [']']
  else U.lower hostname

def http : List Char := ['h', 't', 't', 'p']

/-- The port, unless it is the default one of the scheme. -/
def keptPort (scheme : List Char) (port : Option Nat) : Option Nat :=
  port.filter fun p =>
    !((scheme == http && p == 80) || (scheme == Url.https && p == 443))

def portText : Option Nat → List Char
  | some port => ':' :: Nat.toDigits 10 port
  | none => []

/-- Parameters in the order of their names and values. -/
def inOrder (a b : Pair) : Prop := toLex a ≤ toLex b

instance : DecidableRel inOrder := fun a b => inferInstanceAs (Decidable (toLex a ≤ toLex b))

/-- The parameters that are kept, in order. -/
def keptPairs (U : Url.Unicode) (query : List Char) : List Pair :=
  ((parseQsl query).filter fun pair => !isTrackingParameter U pair.1).insertionSort inOrder

/-- `canonicalize_url`. -/
def canonicalizeUrl (U : Url.Unicode) (url : List Char) : Option (List Char) :=
  let value := strip url
  if value = [] then none
  else
    match Url.urlsplit U value with
    | none => none
    | some parsed =>
        let scheme := U.lower parsed.scheme
        if scheme ≠ http ∧ scheme ≠ Url.https then none
        else if parsed.netloc = [] then none
        else
          match Url.hostname U parsed.netloc, Url.port parsed.netloc with
          | some hostname, some port =>
              some (Url.urlunsplit Url.https
                (hostText U hostname ++ portText (keptPort scheme port))
                (normalizePath (Url.path value)) (urlencode (keptPairs U (Url.query value))))
          | _, _ => none

/-! ## Paths -/

variable {s path : List Char} {parts : List (List Char)}

theorem collapseSlashes_sublist (s : List Char) : (collapseSlashes s).Sublist s := by
  induction s with
  | nil => exact List.Sublist.refl _
  | cons c s ih =>
      rw [collapseSlashes]
      split
      · exact ih.cons c
      · exact ih.cons_cons c

theorem collapseSlashes_head (s : List Char) : (collapseSlashes s).head? = s.head? := by
  induction s with
  | nil => rfl
  | cons c s ih =>
      rw [collapseSlashes]
      split
      · next h => rw [ih, h.2, h.1]; rfl
      · rfl

/-- A path from the root begins with one slash once its slashes are collapsed. -/
theorem collapseSlashes_root (s : List Char) :
    ∃ t, collapseSlashes ('/' :: s) = '/' :: t ∧ t.head? ≠ some '/' := by
  induction s with
  | nil => exact ⟨[], rfl, nofun⟩
  | cons c s ih =>
      by_cases hc : c = '/'
      · subst hc
        obtain ⟨t, ht, hhead⟩ := ih
        exact ⟨t, by rw [collapseSlashes, if_pos ⟨rfl, rfl⟩, ht], hhead⟩
      · refine ⟨collapseSlashes (c :: s), ?_, ?_⟩
        · rw [collapseSlashes, if_neg fun h => hc (Option.some.inj h.2)]
        · rw [collapseSlashes_head]
          exact fun h => hc (Option.some.inj h)

/-- The components of a path and the slash at its end. -/
def Ending (trailing : Bool) : List (List Char) := if trailing then [[]] else []

theorem collapseSlashes_append (hs : '/' ∉ s) (t : List Char) :
    collapseSlashes (s ++ t) = s ++ collapseSlashes t := by
  induction s with
  | nil => rfl
  | cons c s ih =>
      rw [List.mem_cons, not_or] at hs
      rw [List.cons_append, collapseSlashes, if_neg fun h => hs.1 h.1.symm, ih hs.2]
      rfl

/-- A path of components with names has no double slash. -/
theorem collapseSlashes_rooted (trailing : Bool) (h : ∀ c ∈ parts, c ≠ [] ∧ '/' ∉ c) :
    collapseSlashes (rooted (parts ++ Ending trailing)) = rooted (parts ++ Ending trailing) := by
  induction parts with
  | nil => cases trailing <;> rfl
  | cons comp parts ih =>
      obtain ⟨hne, hslash⟩ := h comp List.mem_cons_self
      rw [List.cons_append, rooted_cons]
      cases comp with
      | nil => exact absurd rfl hne
      | cons d comp =>
          have hd : d ≠ '/' := fun heq => hslash (heq ▸ List.mem_cons_self)
          rw [collapseSlashes, if_neg fun hboth => hd (Option.some.inj hboth.2),
            collapseSlashes_append hslash, ih fun c hc => h c (List.mem_cons_of_mem _ hc)]

/-- The end of a path of components. -/
theorem getLast?_rooted (trailing : Bool) (h : ∀ c ∈ parts, c ≠ [] ∧ '/' ∉ c)
    (hne : parts ++ Ending trailing ≠ []) :
    (rooted (parts ++ Ending trailing)).getLast? = some '/' ↔ trailing = true := by
  cases trailing with
  | true =>
      have hlast : rooted [[]] = ['/'] := rfl
      simp only [Ending, if_true, rooted_append, hlast, List.getLast?_concat]
  | false =>
      simp only [Ending, Bool.false_eq_true, if_false, List.append_nil, iff_false] at hne ⊢
      cases parts using List.reverseRecOn with
      | nil => exact absurd rfl hne
      | append_singleton parts comp =>
          obtain ⟨hcomp, hslash⟩ := h comp (by simp)
          have hrooted : rooted [comp] = '/' :: comp := by simp [rooted]
          rw [rooted_append, hrooted, List.getLast?_append_of_ne_nil _ (List.cons_ne_nil _ _),
            List.getLast?_cons, List.getLast?_eq_getLast_of_ne_nil hcomp]
          intro hlast
          exact hslash (Option.some.inj hlast ▸ List.getLast_mem hcomp)

/-- What `_normalize_path` makes of a path from the root whose slashes are collapsed. -/
theorem normalizePath_root {t : List Char} (hpath : path ≠ [])
    (hcollapse : collapseSlashes path = '/' :: t) (hhead : t.head? ≠ some '/') :
    normalizePath path =
      if readComponents true (t.splitOn '/') = [] then ['/']
      else rooted (readComponents true (t.splitOn '/') ++
        Ending (decide (('/' :: t).getLast? = some '/'))) := by
  have hnorm := normpath_rooted hhead
  set comps := readComponents true (t.splitOn '/') with hcomps
  unfold normalizePath
  rw [if_neg hpath]
  dsimp only
  rw [hcollapse, hnorm]
  by_cases hnil : comps = []
  · rw [if_pos hnil, if_pos hnil]
    simp
  · -- A path with a component is not the root.
    have hroot : rooted comps ≠ ['/'] := by
      cases hcons : comps with
      | nil => exact absurd hcons hnil
      | cons comp others =>
          have hclean := readComponents_clean (t.splitOn '/') comp
            (by rw [← hcomps, hcons]; exact List.mem_cons_self)
          rw [rooted_cons]
          intro heq
          exact hclean.ne_nil (List.append_eq_nil_iff.mp (List.cons.inj heq).2).1
    have hslash : (rooted comps).head? = some '/' := by
      cases hcons : comps with
      | nil => exact absurd hcons hnil
      | cons comp others => rfl
    have ht : '/' :: t ≠ ['/'] := by
      intro heq
      obtain rfl := (List.cons.inj heq).2
      exact hnil (by rw [hcomps]; rfl)
    rw [if_neg hnil, if_neg hnil, if_pos hslash, if_neg ht]
    by_cases hlast : ('/' :: t).getLast? = some '/'
    · rw [if_pos ⟨hlast, hroot⟩, decide_eq_true hlast, rooted_append]
      rfl
    · rw [if_neg fun h => hlast h.1, decide_eq_false hlast]
      simp [Ending]

/-- A path that is normalised: names without slashes and dots, and at most one slash at its
end. -/
structure Normal (comps : List (List Char)) (trailing : Bool) : Prop where
  clean : ∀ c ∈ comps, Clean c
  plain : ∀ c ∈ comps, '/' ∉ c
  root : comps = [] → trailing = true

theorem weight_ending (comps : List (List Char)) (trailing : Bool) :
    weight (comps ++ Ending trailing) = weight comps + if trailing then 1 else 0 := by
  rw [weight_append]
  cases trailing <;> rfl

/-- The components of a path that ends with a slash end with an empty one. -/
theorem splitOn_trailing {t : List Char} (h : ('/' :: t).getLast? = some '/') :
    ∃ front, t.splitOn '/' = front ++ [[]] := by
  cases t using List.reverseRecOn with
  | nil => exact ⟨[], rfl⟩
  | append_singleton t c =>
      rw [← List.cons_append, List.getLast?_concat] at h
      obtain rfl := Option.some.inj h
      exact ⟨t.splitOn '/', by rw [List.splitOn_append_cons_self, List.splitOn_nil]⟩

/-- A path from the root is normalised to one that is no longer. -/
theorem normalizePath_shape (s : List Char) : ∃ comps trailing, Normal comps trailing ∧
    normalizePath ('/' :: s) = rooted (comps ++ Ending trailing) ∧
      (normalizePath ('/' :: s)).length ≤ s.length + 1 := by
  obtain ⟨t, ht, hhead⟩ := collapseSlashes_root s
  have hlength : t.length + 1 ≤ s.length + 1 := by
    have hle := (collapseSlashes_sublist ('/' :: s)).length_le
    rwa [ht] at hle
  have hweight : weight (t.splitOn '/') = t.length + 1 := by
    rw [weight, rooted_splitOn, List.length_cons]
  rw [normalizePath_root (List.cons_ne_nil _ _) ht hhead]
  set comps := readComponents true (t.splitOn '/') with hcomps
  by_cases hnil : comps = []
  · rw [if_pos hnil]
    exact ⟨[], true, ⟨nofun, nofun, fun _ => rfl⟩, rfl, Nat.le_add_left 1 _⟩
  · rw [if_neg hnil]
    refine ⟨comps, _, ⟨readComponents_clean _, fun c hc =>
      not_mem_of_mem_splitOn (mem_of_readComponents hc), fun h => absurd h hnil⟩, rfl, ?_⟩
    refine le_trans ?_ hlength
    rw [← hweight]
    show weight _ ≤ _
    rw [weight_ending]
    split
    · next hlast =>
        obtain ⟨front, hfront⟩ := splitOn_trailing (of_decide_eq_true hlast)
        have hread : comps = readComponents true front := by
          rw [hcomps, hfront, readComponents_append_nil]
        have hle := @weight_readComponents_le true front
        have hone : weight [[]] = 1 := rfl
        rw [hread, hfront, weight_append, hone]
        omega
    · exact weight_readComponents_le _

/-- A normalised path is left as it is. -/
theorem normalizePath_rooted {comps : List (List Char)} {trailing : Bool}
    (h : Normal comps trailing) : normalizePath (rooted (comps ++ Ending trailing)) =
      rooted (comps ++ Ending trailing) := by
  have hnames : ∀ c ∈ comps, c ≠ [] ∧ '/' ∉ c := fun c hc => ⟨(h.clean c hc).ne_nil, h.plain c hc⟩
  have hne : comps ++ Ending trailing ≠ [] := by
    intro hnil
    obtain ⟨hcomps, hending⟩ := List.append_eq_nil_iff.mp hnil
    rw [h.root hcomps] at hending
    cases hending
  have hplain : ∀ c ∈ comps ++ Ending trailing, '/' ∉ c := by
    intro c hc
    rcases List.mem_append.mp hc with hc | hc
    · exact h.plain c hc
    · unfold Ending at hc
      split at hc
      · rw [List.mem_singleton.mp hc]
        exact List.not_mem_nil
      · cases hc
  obtain ⟨t, ht⟩ : ∃ t, rooted (comps ++ Ending trailing) = '/' :: t := by
    cases hcons : comps ++ Ending trailing with
    | nil => exact absurd hcons hne
    | cons comp others => exact ⟨_, rfl⟩
  have hsplit : t.splitOn '/' = comps ++ Ending trailing := by
    have hwhole := splitOn_rooted hplain
    rw [ht, List.splitOn_cons_eq_if_modifyHead, if_pos (beq_self_eq_true _)] at hwhole
    exact (List.cons.inj hwhole).2
  have hhead : t.head? ≠ some '/' := by
    cases hcons : comps with
    | nil =>
        rw [hcons, h.root hcons] at ht
        rw [← (List.cons.inj ht).2]
        exact nofun
    | cons comp others =>
        obtain ⟨hcomp, hslash⟩ := hnames comp (by rw [hcons]; exact List.mem_cons_self)
        rw [hcons, List.cons_append, rooted_cons] at ht
        rw [← (List.cons.inj ht).2]
        cases comp with
        | nil => exact absurd rfl hcomp
        | cons d comp =>
            intro heq
            exact hslash (Option.some.inj heq ▸ List.mem_cons_self)
  have hread : readComponents true (t.splitOn '/') = comps := by
    rw [hsplit]
    cases trailing with
    | true => exact (readComponents_append_nil comps).trans (readComponents_of_clean h.clean)
    | false =>
        simp only [Ending, Bool.false_eq_true, if_false, List.append_nil]
        exact readComponents_of_clean h.clean
  have hcollapse : collapseSlashes (rooted (comps ++ Ending trailing)) = '/' :: t :=
    (collapseSlashes_rooted trailing hnames).trans ht
  have hlast : decide (('/' :: t).getLast? = some '/') = trailing := by
    rw [← ht, Bool.eq_iff_iff, decide_eq_true_eq]
    exact getLast?_rooted trailing hnames hne
  rw [normalizePath_root (by rw [ht]; exact List.cons_ne_nil _ _) hcollapse hhead, hread, hlast]
  by_cases hnil : comps = []
  · rw [if_pos hnil, hnil, h.root hnil]
    rfl
  · rw [if_neg hnil]

/-- A path is normalised once. -/
theorem normalizePath_normalizePath (h : path = [] ∨ ∃ s, path = '/' :: s) :
    normalizePath (normalizePath path) = normalizePath path := by
  rcases h with rfl | ⟨s, rfl⟩
  · rfl
  · obtain ⟨comps, trailing, hnormal, hshape, -⟩ := normalizePath_shape s
    rw [hshape, normalizePath_rooted hnormal]

/-! ## Parameters -/

instance : Std.Total inOrder := inferInstanceAs (Std.Total fun a b : Pair => toLex a ≤ toLex b)
instance : IsTrans Pair inOrder := ⟨fun _ _ _ => le_trans⟩

/-- The parameters that are kept track nobody and stand in order. -/
theorem keptPairs_kept (U : Url.Unicode) (query : List Char) :
    (∀ pair ∈ keptPairs U query, (!isTrackingParameter U pair.1) = true) ∧
      (keptPairs U query).Pairwise inOrder :=
  ⟨fun _ hpair => (List.mem_filter.mp ((List.perm_insertionSort _ _).mem_iff.mp hpair)).2,
    List.pairwise_insertionSort _ _⟩

/-- The parameters that are kept are kept again. -/
theorem keptPairs_urlencode (U : Url.Unicode) (query : List Char) :
    keptPairs U (urlencode (keptPairs U query)) = keptPairs U query := by
  obtain ⟨hkept, hsorted⟩ := keptPairs_kept U query
  have hfilter : (keptPairs U query).filter (fun pair => !isTrackingParameter U pair.1) =
      keptPairs U query := List.filter_eq_self.mpr hkept
  have hread : keptPairs U (urlencode (keptPairs U query)) =
      ((keptPairs U query).filter fun pair => !isTrackingParameter U pair.1).insertionSort
        inOrder := by
    conv_lhs => unfold keptPairs
    rw [parseQsl_urlencode]
    rfl
  rw [hread, hfilter, hsorted.insertionSort_eq]

example : (canonicalizeUrl Url.asciiCase.toUnicode
    " HTTP://Shop.Example:80//a/./b/?utm_x=1&b=2&a=%20#top".toList).map String.ofList =
      some "https://shop.example/a/b/?a=+&b=2" := by decide

end SeoAgent.Normalization
