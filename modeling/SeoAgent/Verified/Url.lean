import Mathlib
import SeoAgent.Verified.Text

/-!
# The parts of a URL

`urlsplit` of `urllib.parse`, with the path and the query of a URL, and the host and the
port of a netloc. Lower case and the netlocs that are refused depend on the tables of
Unicode; a `Unicode` has them, with what is true of white space in both.
-/

namespace SeoAgent.Verified.Url

/-- `str.lower`, and the netlocs that `urlsplit` takes (`_checknetloc` and
`_check_bracketed_host`). -/
structure Unicode where
  lower : List Char → List Char
  allowed : List Char → Bool
  lower_nil : lower [] = []
  lower_space : ∀ {s : List Char}, (∃ c ∈ lower s, Text.isSpace c = true) ↔
    ∃ c ∈ s, Text.isSpace c = true
  allowed_append : ∀ {netloc ws : List Char}, (∀ c ∈ ws, Text.isSpace c = true) →
    allowed (netloc ++ ws) = true → allowed netloc = true

/-- Tables in which ASCII text at the start of a text is put in lower case letter by
letter. -/
structure CaseTable extends Unicode where
  lower_ascii : ∀ {s : List Char} (t : List Char), s.all (fun c => c.toNat < 128) = true →
    ∃ t', lower (s ++ t) = s.map Char.toLower ++ t' ∧ (t = [] → t' = [])

theorem CaseTable.lower_plain (U : CaseTable) {s : List Char}
    (h : s.all (fun c => c.toNat < 128) = true) : U.lower s = s.map Char.toLower := by
  obtain ⟨t, hlower, ht⟩ := U.lower_ascii [] h
  rwa [List.append_nil, ht rfl, List.append_nil] at hlower

/-- `_WHATWG_C0_CONTROL_OR_SPACE`. -/
def isC0OrSpace (c : Char) : Bool := c.toNat ≤ 0x20

/-- `_UNSAFE_URL_BYTES_TO_REMOVE`. -/
def isUnsafe (c : Char) : Bool := c == '\t' || c == '\r' || c == '\n'

/-- `scheme_chars`. -/
def isSchemeChar (c : Char) : Bool := c.isAlphanum || c == '+' || c == '-' || c == '.'

/-- The scheme of a URL in lower case and what follows it, when it has one. -/
def splitScheme (url : List Char) : List Char × List Char :=
  match url.takeWhile (· ≠ ':'), url.dropWhile (· ≠ ':') with
  | c :: cs, _ :: rest =>
      if c.isAlpha && cs.all isSchemeChar then ((c :: cs).map Char.toLower, rest) else ([], url)
  | _, _ => ([], url)

def endsNetloc (c : Char) : Bool := c == '/' || c == '?' || c == '#'

/-- The netloc of what follows the scheme. -/
def splitNetloc : List Char → List Char
  | '/' :: '/' :: rest => rest.takeWhile (!endsNetloc ·)
  | _ => []

structure SplitResult where
  scheme : List Char
  netloc : List Char
  deriving DecidableEq, Repr

/-- The characters of a URL that are looked at. -/
def cleaned (url : List Char) : List Char := (url.dropWhile isC0OrSpace).filter (!isUnsafe ·)

def netlocOf (url : List Char) : List Char := splitNetloc (splitScheme (cleaned url)).2

/-- `urlsplit`; `none` for a `ValueError`. -/
def urlsplit (U : Unicode) (url : List Char) : Option SplitResult :=
  if U.allowed (netlocOf url) then some ⟨(splitScheme (cleaned url)).1, netlocOf url⟩ else none

/-- What follows the netloc. -/
def afterNetloc : List Char → List Char
  | '/' :: '/' :: rest => rest.dropWhile (!endsNetloc ·)
  | rest => rest

/-- What `urlsplit` leaves without the fragment. -/
def pathAndQuery (url : List Char) : List Char :=
  (afterNetloc (splitScheme (cleaned url)).2).takeWhile (· ≠ '#')

/-- `path`. -/
def path (url : List Char) : List Char := (pathAndQuery url).takeWhile (· ≠ '?')

/-- `query`. -/
def query (url : List Char) : List Char := ((pathAndQuery url).dropWhile (· ≠ '?')).drop 1

/-- `fragment`. -/
def fragment (url : List Char) : List Char :=
  ((afterNetloc (splitScheme (cleaned url)).2).dropWhile (· ≠ '#')).drop 1

/-- `uses_params`. -/
def usesParams : List (List Char) :=
  ["", "ftp", "hdl", "prospero", "http", "https", "shttp", "rtsp", "rtspu", "sip", "sips",
    "mms", "sftp", "tel"].map String.toList

/-- `urlparse` cuts the parameters off the last segment of the path: the path without them,
and they. -/
def splitParams (scheme path : List Char) : List Char × List Char :=
  let last := path.rtakeWhile (· ≠ '/')
  if scheme ∈ usesParams ∧ ';' ∈ last then
    (path.rdropWhile (· ≠ '/') ++ last.takeWhile (· ≠ ';'), (last.dropWhile (· ≠ ';')).drop 1)
  else (path, [])

/-- The path of a URL with a netloc is empty or begins with a slash. -/
theorem path_of_netloc {url : List Char} (h : netlocOf url ≠ []) :
    path url = [] ∨ ∃ rest, path url = '/' :: rest := by
  unfold netlocOf at h
  unfold path pathAndQuery
  generalize (splitScheme (cleaned url)).2 = parts at h ⊢
  unfold splitNetloc at h
  split at h
  · next rest =>
      show List.takeWhile _ (List.takeWhile _ (rest.dropWhile (!endsNetloc ·))) = [] ∨ _
      cases hafter : rest.dropWhile (!endsNetloc ·) with
      | nil => exact .inl rfl
      | cons c cs =>
          have hc := List.head?_dropWhile_not (!endsNetloc ·) rest
          rw [hafter] at hc
          simp only [List.head?_cons, Bool.not_eq_false', endsNetloc, Bool.or_eq_true,
            beq_iff_eq] at hc
          obtain (rfl | rfl) | rfl := hc
          · refine .inr ⟨(cs.takeWhile (· ≠ '#')).takeWhile (· ≠ '?'), ?_⟩
            simp only [afterNetloc, hafter]
            rfl
          · exact .inl rfl
          · exact .inl rfl
  · exact absurd rfl h

/-- What follows the last `@` of a netloc. -/
def hostinfo (netloc : List Char) : List Char :=
  (netloc.reverse.takeWhile (· ≠ '@')).reverse

/-- `_hostinfo`: the host, without its brackets, and the port. -/
def hostPort (netloc : List Char) : List Char × List Char :=
  match (hostinfo netloc).dropWhile (· ≠ '[') with
  | _ :: bracketed =>
      (bracketed.takeWhile (· ≠ ']'),
        ((bracketed.dropWhile (· ≠ ']')).dropWhile (· ≠ ':')).drop 1)
  | [] =>
      ((hostinfo netloc).takeWhile (· ≠ ':'), ((hostinfo netloc).dropWhile (· ≠ ':')).drop 1)

/-- `hostname`; the zone of an address keeps its case. -/
def hostname (U : Unicode) (netloc : List Char) : Option (List Char) :=
  match (hostPort netloc).1 with
  | [] => none
  | host => some (U.lower (host.takeWhile (· ≠ '%')) ++ host.dropWhile (· ≠ '%'))

/-- The number a text of digits writes. -/
def number (digits : List Char) : Nat :=
  digits.foldl (fun n c => 10 * n + (c.toNat - '0'.toNat)) 0

/-- `port`; `none` for a `ValueError`, `some none` for a netloc without one. -/
def port (netloc : List Char) : Option (Option Nat) :=
  match (hostPort netloc).2 with
  | [] => some none
  | digits =>
      if digits.all Char.isDigit ∧ number digits ≤ 65535 then some (some (number digits)) else none

/-- `rstrip(".")`. -/
def rstripDots (s : List Char) : List Char := (s.reverse.dropWhile (· == '.')).reverse

/-! ## White space at the end -/

section Space
variable {U : Unicode} {s ws netloc : List Char}

/-- Some character is white space. -/
def HasSpace (s : List Char) : Prop := ∃ c ∈ s, Text.isSpace c = true

theorem hasSpace_of_sub {t : List Char} (h : HasSpace s) (hsub : ∀ c ∈ s, c ∈ t) : HasSpace t :=
  let ⟨c, hc, hspace⟩ := h
  ⟨c, hsub c hc, hspace⟩

theorem ne_of_isSpace {c d : Char} (hc : Text.isSpace c = true) (hd : Text.isSpace d = false) :
    c ≠ d := fun heq => by rw [heq, hd] at hc; cases hc

/-- Reading up to a character that is not white space stops where it did, or takes the
white space along. -/
theorem takeWhile_append_space {d : Char} (hd : Text.isSpace d = false)
    (hws : ∀ c ∈ ws, Text.isSpace c = true) :
    ((s ++ ws).takeWhile (· ≠ d) = s.takeWhile (· ≠ d) ∧
        (s ++ ws).dropWhile (· ≠ d) = s.dropWhile (· ≠ d) ++ ws ∧ s.dropWhile (· ≠ d) ≠ []) ∨
      ((s ++ ws).takeWhile (· ≠ d) = s ++ ws ∧ s.takeWhile (· ≠ d) = s ∧
        (s ++ ws).dropWhile (· ≠ d) = [] ∧ s.dropWhile (· ≠ d) = []) := by
  have hall : ∀ c ∈ ws, decide (c ≠ d) = true := fun c hc =>
    decide_eq_true (ne_of_isSpace (hws c hc) hd)
  induction s with
  | nil =>
      refine .inr ⟨?_, rfl, ?_, rfl⟩
      · exact List.takeWhile_eq_self_iff.mpr hall
      · exact List.dropWhile_eq_nil_iff.mpr hall
  | cons c s ih =>
      by_cases hc : c = d
      · subst hc
        simp
      · simp only [List.cons_append, ne_eq, hc, not_false_eq_true, decide_true,
          List.takeWhile_cons_of_pos, List.dropWhile_cons_of_pos, List.cons.injEq, true_and]
        exact ih

theorem not_isAlpha_of_isSpace {c : Char} (h : Text.isSpace c = true) : c.isAlpha = false := by
  rw [Bool.eq_false_iff]
  intro halpha
  simp only [Char.isAlpha, Char.isUpper, Char.isLower, Bool.or_eq_true, Bool.and_eq_true,
    decide_eq_true_eq, UInt32.le_iff_toNat_le, ge_iff_le] at halpha
  simp only [Text.isSpace, Bool.or_eq_true, Bool.and_eq_true, decide_eq_true_eq,
    beq_iff_eq] at h
  have hval : c.toNat = c.val.toNat := rfl
  have hA : 'A'.val.toNat = 65 := rfl
  have hZ : 'Z'.val.toNat = 90 := rfl
  have ha : 'a'.val.toNat = 97 := rfl
  have hz : 'z'.val.toNat = 122 := rfl
  omega

/-- White space before a URL is dropped, or its first character that is not stays in
front. -/
theorem cleaned_space (ws₂ : List Char) {ws₁ v : List Char} {a : Char}
    (hws : ∀ c ∈ ws₁, Text.isSpace c = true) (ha : isC0OrSpace a = false) :
    cleaned (ws₁ ++ (a :: v) ++ ws₂) = cleaned (a :: v) ++ ws₂.filter (!isUnsafe ·) ∨
      ∃ c rest, Text.isSpace c = true ∧ cleaned (ws₁ ++ (a :: v) ++ ws₂) = c :: rest := by
  induction ws₁ with
  | nil =>
      refine .inl ?_
      simp only [cleaned, List.nil_append, List.cons_append, List.dropWhile_cons, ha,
        Bool.false_eq_true, if_false]
      exact List.filter_append (a :: v) ws₂
  | cons c ws₁ ih =>
      have htail := ih fun d hd => hws d (List.mem_cons_of_mem c hd)
      cases hc : isC0OrSpace c with
      | true =>
          simp only [cleaned, List.cons_append, List.dropWhile_cons, hc, if_true] at htail ⊢
          exact htail
      | false =>
          have hkept : isUnsafe c = false := by
            rw [Bool.eq_false_iff]
            intro hunsafe
            simp only [isUnsafe, Bool.or_eq_true, beq_iff_eq] at hunsafe
            rcases hunsafe with (rfl | rfl) | rfl <;> exact absurd hc (by decide)
          refine .inr ⟨c, (ws₁ ++ (a :: v) ++ ws₂).filter (!isUnsafe ·),
            hws c List.mem_cons_self, ?_⟩
          simp only [cleaned, List.cons_append, List.dropWhile_cons, hc, Bool.false_eq_true,
            if_false, List.filter_cons, hkept, Bool.not_false, if_true]

/-- A URL that begins with white space has no netloc. -/
theorem netlocOf_of_space {url rest : List Char} {c : Char} (hc : Text.isSpace c = true)
    (h : cleaned url = c :: rest) : netlocOf url = [] := by
  have hscheme : splitScheme (c :: rest) = ([], c :: rest) := by
    have hcolon : decide (c ≠ ':') = true := decide_eq_true (ne_of_isSpace hc (by decide))
    have hfirst : (c :: rest).takeWhile (· ≠ ':') = c :: rest.takeWhile (· ≠ ':') :=
      List.takeWhile_cons_of_pos hcolon
    unfold splitScheme
    split
    · next d ds e es htake hdrop =>
        obtain rfl := (List.cons.inj (hfirst.symm.trans htake)).1
        rw [not_isAlpha_of_isSpace hc]
        rfl
    · rfl
  unfold netlocOf
  rw [h, hscheme]
  unfold splitNetloc
  split
  · next htext =>
      rw [(List.cons.inj htext).1] at hc
      cases hc
  · rfl

theorem hostinfo_append (hws : ∀ c ∈ ws, Text.isSpace c = true) :
    hostinfo (netloc ++ ws) = hostinfo netloc ++ ws := by
  have hall : ∀ c ∈ ws.reverse, decide (c ≠ '@') = true := fun c hc =>
    decide_eq_true (ne_of_isSpace (hws c (List.mem_reverse.mp hc)) (by decide))
  unfold hostinfo
  rw [List.reverse_append, List.takeWhile_append_of_pos hall, List.reverse_append,
    List.reverse_reverse]

/-- The host of a netloc with white space at its end is the host without it, or has it
at its end. -/
theorem hostPort_append (netloc : List Char) (hws : ∀ c ∈ ws, Text.isSpace c = true) :
    (hostPort (netloc ++ ws)).1 = (hostPort netloc).1 ∨
      (hostPort (netloc ++ ws)).1 = (hostPort netloc).1 ++ ws := by
  unfold hostPort
  rw [hostinfo_append hws]
  rcases takeWhile_append_space (s := hostinfo netloc) (d := '[') (by decide) hws with
    ⟨-, hdrop, hne⟩ | ⟨-, -, hdrop, hnil⟩
  · rw [hdrop]
    cases hb : (hostinfo netloc).dropWhile (· ≠ '[') with
    | nil => exact absurd hb hne
    | cons d bracketed =>
        rcases takeWhile_append_space (s := bracketed) (d := ']') (by decide) hws with
          ⟨htake, -, -⟩ | ⟨htake, hself, -⟩
        · exact .inl htake
        · exact .inr (htake.trans (congrArg (· ++ ws) hself.symm))
  · rw [hdrop, hnil]
    rcases takeWhile_append_space (s := hostinfo netloc) (d := ':') (by decide) hws with
      ⟨htake, -, -⟩ | ⟨htake, hself, -⟩
    · exact .inl htake
    · exact .inr (htake.trans (congrArg (· ++ ws) hself.symm))

theorem hasSpace_hostname {host : List Char} (h : HasSpace (hostPort netloc).1)
    (hhost : hostname U netloc = some host) : HasSpace host := by
  unfold hostname at hhost
  split at hhost
  · cases hhost
  · obtain rfl := Option.some.inj hhost
    obtain ⟨c, hc, hspace⟩ := h
    rw [← List.takeWhile_append_dropWhile (p := (· ≠ '%')) (l := (hostPort netloc).1)] at hc
    rcases List.mem_append.mp hc with hc | hc
    · obtain ⟨d, hd, hdspace⟩ := U.lower_space.mpr ⟨c, hc, hspace⟩
      exact ⟨d, List.mem_append_left _ hd, hdspace⟩
    · exact ⟨c, List.mem_append_right _ hc, hspace⟩

theorem hasSpace_rstripDots (h : HasSpace s) : HasSpace (rstripDots s) := by
  obtain ⟨c, hc, hspace⟩ := h
  refine ⟨c, List.mem_reverse.mpr ?_, hspace⟩
  rw [← List.mem_reverse, ← List.takeWhile_append_dropWhile (p := (· == '.'))
    (l := s.reverse)] at hc
  rcases List.mem_append.mp hc with hc | hc
  · have hdot := List.mem_takeWhile_imp hc
    rw [beq_iff_eq] at hdot
    rw [hdot] at hspace
    exact absurd hspace (by decide)
  · exact hc

/-! ## White space that was there -/

theorem mem_of_mem_takeWhile {p : Char → Bool} {c : Char} (h : c ∈ s.takeWhile p) : c ∈ s :=
  (List.takeWhile_sublist p).subset h

theorem mem_of_mem_dropWhile {p : Char → Bool} {c : Char} (h : c ∈ s.dropWhile p) : c ∈ s :=
  (List.dropWhile_sublist p).subset h

theorem mem_of_mem_netlocOf {url : List Char} {c : Char} (h : c ∈ netlocOf url) : c ∈ url := by
  have hscheme : ∀ t, ∀ d ∈ (splitScheme t).2, d ∈ t := by
    intro t d hd
    unfold splitScheme at hd
    split at hd
    · next hdrop =>
        split at hd
        · exact mem_of_mem_dropWhile (hdrop ▸ List.mem_cons_of_mem _ hd)
        · exact hd
    · exact hd
  have hnetloc : ∀ t, ∀ d ∈ splitNetloc t, d ∈ t := by
    intro t d hd
    unfold splitNetloc at hd
    split at hd
    · exact List.mem_cons_of_mem _ (List.mem_cons_of_mem _ (mem_of_mem_takeWhile hd))
    · exact absurd hd List.not_mem_nil
  have hcleaned := hscheme _ c (hnetloc _ c h)
  exact mem_of_mem_dropWhile (List.mem_filter.mp hcleaned).1

theorem mem_of_mem_hostPort {c : Char} (h : c ∈ (hostPort netloc).1) : c ∈ netloc := by
  have hinfo : ∀ d ∈ hostinfo netloc, d ∈ netloc := fun d hd =>
    List.mem_reverse.mp (mem_of_mem_takeWhile (List.mem_reverse.mp hd))
  unfold hostPort at h
  split at h
  · next hdrop =>
      have hbracketed := mem_of_mem_takeWhile h
      exact hinfo c (mem_of_mem_dropWhile (hdrop ▸ List.mem_cons_of_mem _ hbracketed))
  · exact hinfo c (mem_of_mem_takeWhile h)

/-- White space in a host was in its netloc. -/
theorem hasSpace_of_hostname {host : List Char} (hhost : hostname U netloc = some host)
    (h : HasSpace host) : HasSpace netloc := by
  unfold hostname at hhost
  split at hhost
  · cases hhost
  · obtain rfl := Option.some.inj hhost
    have hpart : HasSpace (hostPort netloc).1 := by
      obtain ⟨c, hc, hspace⟩ := h
      rcases List.mem_append.mp hc with hc | hc
      · obtain ⟨d, hd, hdspace⟩ := U.lower_space.mp ⟨c, hc, hspace⟩
        exact ⟨d, mem_of_mem_takeWhile hd, hdspace⟩
      · exact ⟨c, mem_of_mem_dropWhile hc, hspace⟩
    exact hasSpace_of_sub hpart fun c hc => mem_of_mem_hostPort hc

theorem hasSpace_of_rstripDots (h : HasSpace (rstripDots s)) : HasSpace s :=
  hasSpace_of_sub h fun _ hc =>
    List.mem_reverse.mp (mem_of_mem_dropWhile (List.mem_reverse.mp hc))

end Space

/-! ## Plain text -/

/-- Lower case leaves a character as it is, or makes it a lower case letter. -/
theorem toLower_cases (c : Char) :
    c.toLower = c ∨ (65 ≤ c.toNat ∧ c.toNat ≤ 90 ∧ c.toLower.toNat = c.toNat + 32) := by
  unfold Char.toLower
  split
  · next h =>
      have hA : 65 ≤ c.toNat := UInt32.le_iff_toNat_le.mp h.1
      have hZ : c.toNat ≤ 90 := UInt32.le_iff_toNat_le.mp h.2
      refine .inr ⟨hA, hZ, ?_⟩
      show (c.val + 32).toNat = c.val.toNat + 32
      have hval : c.val.toNat ≤ 90 := hZ
      rw [UInt32.toNat_add, Nat.mod_eq_of_lt]
      · rfl
      · show c.val.toNat + 32 < 2 ^ 32
        omega
  · exact .inl rfl

theorem isSpace_toLower (c : Char) : Text.isSpace c.toLower = Text.isSpace c := by
  rcases toLower_cases c with h | ⟨hA, hZ, h⟩
  · rw [h]
  · have hno : ∀ d : Char, 65 ≤ d.toNat → d.toNat ≤ 122 → Text.isSpace d = false := by
      intro d hlow hhigh
      rw [Bool.eq_false_iff]
      intro hspace
      simp only [Text.isSpace, Bool.or_eq_true, Bool.and_eq_true, decide_eq_true_eq,
        beq_iff_eq] at hspace
      omega
    rw [hno c hA (by omega), hno c.toLower (by omega) (by omega)]

/-- Plain text: lower case of ASCII letters only, and no netloc refused but one with
half of a pair of brackets. -/
def ascii : Unicode where
  lower := List.map Char.toLower
  allowed := fun netloc => netloc.contains '[' == netloc.contains ']'
  lower_nil := rfl
  lower_space := by
    intro s
    simp only [List.mem_map, exists_exists_and_eq_and, isSpace_toLower]
  allowed_append := by
    intro netloc ws hws h
    have hnot : ∀ c, Text.isSpace c = false → ws.contains c = false := fun c hc => by
      rw [← Bool.not_eq_true, List.contains_iff_mem]
      exact fun hmem => by rw [hws c hmem] at hc; cases hc
    have hcontains : ∀ c, Text.isSpace c = false →
        (netloc ++ ws).contains c = netloc.contains c := fun c hc => by
      rw [List.contains_append, hnot c hc, Bool.or_false]
    rwa [hcontains '[' (by decide), hcontains ']' (by decide)] at h

def asciiCase : CaseTable :=
  { ascii with
    lower_ascii := fun {s} t _ => ⟨t.map Char.toLower, List.map_append, fun h => by rw [h]; rfl⟩ }

example : (urlsplit ascii " https://Shop.Example.com:8443/x?y#z".toList).map
    (fun r => (String.ofList r.scheme, (hostname ascii r.netloc).map String.ofList,
      port r.netloc)) = some ("https", some "shop.example.com", some (some 8443)) := by decide

end SeoAgent.Verified.Url
