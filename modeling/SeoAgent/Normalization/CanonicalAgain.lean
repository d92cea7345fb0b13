import SeoAgent.Normalization.CanonicalUrl

/-!
# The canonical form of a canonical URL

A key that was made by `canonicalize_url` is canonicalised again where pages are looked up.
Which URLs have a canonical form that stays as it is, is decided here.

## Main results

* `rebuilt_hostPort`, `rebuilt_allowed` — the netloc of a canonical URL is taken, and has the
  host and the port it was put together from.
* `canonicalizeUrl_again_iff` — a canonical URL is its own canonical form, but for the port 443
  of `http`, white space that comes to its end and brackets around no address.
-/

namespace SeoAgent.Normalization

open SeoAgent.Verified Lines PosixPath QueryString

/-! ## Taking a URL apart -/

/-- `canonicalize_url` takes the URL apart in this way. -/
structure Reads (U : Url.Unicode) (url : List Char) (parsed : Url.SplitResult)
    (hostname : List Char) (port : Option Nat) : Prop where
  ne_nil : strip url ≠ []
  split : Url.urlsplit U (strip url) = some parsed
  scheme : U.lower parsed.scheme = http ∨ U.lower parsed.scheme = Url.https
  netloc : parsed.netloc ≠ []
  hostname : Url.hostname U parsed.netloc = some hostname
  port : Url.port parsed.netloc = some port

/-- The netloc that is put together. -/
def rebuilt (U : Url.Unicode) (hostname : List Char) (port : Option Nat) : List Char :=
  hostText U hostname ++ portText port

/-- The URL that is put together. -/
def putTogether (U : Url.Unicode) (value : List Char) (parsed : Url.SplitResult)
    (hostname : List Char) (port : Option Nat) : List Char :=
  Url.urlunsplit Url.https (rebuilt U hostname (keptPort (U.lower parsed.scheme) port))
    (normalizePath (Url.path value)) (urlencode (keptPairs U (Url.query value)))

theorem canonicalizeUrl_eq_some {U : Url.Unicode} {url canon : List Char} :
    canonicalizeUrl U url = some canon ↔ ∃ parsed hostname port,
      Reads U url parsed hostname port ∧ canon = putTogether U (strip url) parsed hostname port := by
  constructor
  · intro h
    unfold canonicalizeUrl at h
    dsimp only at h
    split at h
    · cases h
    · next hne =>
        split at h
        · cases h
        · next parsed hsplit =>
            split at h
            · cases h
            · next hscheme =>
                split at h
                · cases h
                · next hnetloc =>
                    split at h
                    · next hostname port hhost hport =>
                        refine ⟨parsed, hostname, port, ⟨hne, hsplit, ?_, hnetloc, hhost, hport⟩,
                          (Option.some.inj h).symm⟩
                        rwa [not_and_or, not_not, not_not] at hscheme
                    · cases h
  · rintro ⟨parsed, hostname, port, h, rfl⟩
    have hscheme : ¬(U.lower parsed.scheme ≠ http ∧ U.lower parsed.scheme ≠ Url.https) := by
      rintro ⟨h₁, h₂⟩
      exact h.scheme.elim h₁ h₂
    unfold canonicalizeUrl
    simp only [h.ne_nil, h.split, if_neg hscheme, h.netloc, h.hostname, h.port, if_false]
    rfl

/-! ## The netloc of a canonical URL -/

section Netlocs
variable {U : Url.NetlocTable} {netloc hostname : List Char} {port : Option Nat} {c : Char}

/-- What is known of a host that was read from a netloc. -/
theorem hostname_raw (h : Url.hostname U.toUnicode netloc = some hostname) :
    (Url.hostPort netloc).1 ≠ [] ∧
      hostname = U.lower ((Url.hostPort netloc).1.takeWhile (· ≠ '%')) ++
        (Url.hostPort netloc).1.dropWhile (· ≠ '%') := by
  unfold Url.hostname at h
  split at h
  · cases h
  · next host hne => exact ⟨hne, (Option.some.inj h).symm⟩

theorem lower_hostname (h : Url.hostname U.toUnicode netloc = some hostname) :
    U.lower hostname = U.lowerHost (Url.hostPort netloc).1 := by
  rw [(hostname_raw h).2]
  rfl

theorem mem_hostname (h : Url.hostname U.toUnicode netloc = some hostname) (hc : c.toNat < 128)
    (halpha : c.isAlpha = false) : c ∈ hostname ↔ c ∈ (Url.hostPort netloc).1 := by
  rw [(hostname_raw h).2, U.mem_hostText hc halpha]

theorem mem_lower_hostname (h : Url.hostname U.toUnicode netloc = some hostname)
    (hc : c.toNat < 128) (halpha : c.isAlpha = false) :
    c ∈ U.lower hostname ↔ c ∈ (Url.hostPort netloc).1 := by
  rw [lower_hostname h, U.mem_lowerHost hc halpha]

/-- What the host is put together with is ASCII. -/
theorem mem_rebuilt (h : c ∈ rebuilt U.toUnicode hostname port) :
    c ∈ U.lower hostname ∨ c = '[' ∨ c = ']' ∨ c = ':' ∨ c.isDigit = true := by
  rcases List.mem_append.mp h with h | h
  · unfold hostText at h
    split at h
    · rcases List.mem_append.mp h with h | h
      · rcases List.mem_cons.mp h with rfl | h
        · exact .inr (.inl rfl)
        · exact .inl h
      · exact .inr (.inr (.inl (List.mem_singleton.mp h)))
    · exact .inl h
  · unfold portText at h
    split at h
    · rcases List.mem_cons.mp h with rfl | h
      · exact .inr (.inr (.inr (.inl rfl)))
      · exact .inr (.inr (.inr (.inr (Nat.isDigit_of_mem_toDigits (by decide) (by decide) h))))
    · cases h

theorem isDigit_ascii (h : c.isDigit = true) : c.toNat < 128 ∧ Url.isDelimiter c = false ∧
    Url.endsNetloc c = false ∧ Url.isUnsafe c = false ∧ c ≠ '@' ∧ c ≠ '[' ∧ c ≠ ']' ∧ c ≠ ':' ∧
      Text.isSpace c = false := by
  simp only [Char.isDigit, Bool.and_eq_true, decide_eq_true_eq, UInt32.le_iff_toNat_le,
    ge_iff_le] at h
  have hval : c.toNat = c.val.toNat := rfl
  have h0 : '0'.val.toNat = 48 := rfl
  have h9 : '9'.val.toNat = 57 := rfl
  have hne : ∀ d : Char, d.toNat < 48 ∨ 57 < d.toNat → c ≠ d := by
    rintro d hd rfl
    omega
  have hspace : Text.isSpace c = false := by
    rw [Bool.eq_false_iff]
    intro hspace
    simp only [Text.isSpace, Bool.or_eq_true, Bool.and_eq_true, decide_eq_true_eq,
      beq_iff_eq] at hspace
    omega
  refine ⟨by omega, ?_, ?_, ?_, hne _ (by decide), hne _ (by decide), hne _ (by decide),
    hne _ (by decide), hspace⟩
  · simp [Url.isDelimiter, Url.isSeparator, hne '@' (by decide), hne ':' (by decide),
      hne '#' (by decide), hne '?' (by decide), hne '/' (by decide)]
  · simp [Url.endsNetloc, hne '/' (by decide), hne '?' (by decide), hne '#' (by decide)]
  · simp [Url.isUnsafe, hne '\t' (by decide), hne '\r' (by decide), hne '\n' (by decide)]

/-- A netloc that is put together splits no URL. -/
theorem rebuilt_plain (h : Url.hostname U.toUnicode netloc = some hostname)
    (hplain : ∀ c ∈ netloc, Url.endsNetloc c = false ∧ Url.isUnsafe c = false)
    (hc : c ∈ rebuilt U.toUnicode hostname port) :
    Url.endsNetloc c = false ∧ Url.isUnsafe c = false := by
  rcases mem_rebuilt hc with hc | rfl | rfl | rfl | hc
  · have hin : c.toNat < 128 → c.isAlpha = false →
        Url.endsNetloc c = false ∧ Url.isUnsafe c = false := fun hascii halpha =>
      hplain c (Url.mem_of_mem_hostPort ((mem_lower_hostname h hascii halpha).mp hc))
    constructor
    · by_contra hends
      simp only [Url.endsNetloc, Bool.not_eq_false, Bool.or_eq_true, beq_iff_eq] at hends
      rcases hends with (rfl | rfl) | rfl <;> cases (hin (by decide) (by decide)).1
    · by_contra hunsafe
      simp only [Url.isUnsafe, Bool.not_eq_false, Bool.or_eq_true, beq_iff_eq] at hunsafe
      rcases hunsafe with (rfl | rfl) | rfl <;> cases (hin (by decide) (by decide)).2
  · exact ⟨by decide, by decide⟩
  · exact ⟨by decide, by decide⟩
  · exact ⟨by decide, by decide⟩
  · exact ⟨(isDigit_ascii hc).2.2.1, (isDigit_ascii hc).2.2.2.1⟩

/-- A netloc that is put together names no user. -/
theorem rebuilt_no_user (h : Url.hostname U.toUnicode netloc = some hostname) :
    '@' ∉ rebuilt U.toUnicode hostname port := fun hc => by
  rcases mem_rebuilt hc with hc | hc | hc | hc | hc
  · rw [mem_lower_hostname h (by decide) (by decide)] at hc
    exact (Url.hostPort_split netloc).1 hc
  all_goals cases hc

/-- No character of a netloc that is put together expands to a delimiter. -/
theorem rebuilt_expands (h : Url.hostname U.toUnicode netloc = some hostname)
    (hplain : ∀ c ∈ netloc, Url.endsNetloc c = false ∧ Url.isUnsafe c = false)
    (hallowed : U.allowed netloc = true) :
    Url.expands U.nfkc (rebuilt U.toUnicode hostname port) = false := by
  rw [Bool.eq_false_iff]
  intro hexpands
  obtain ⟨-, hany⟩ := Bool.and_eq_true_iff.mp hexpands
  obtain ⟨d, hd, hdelimiter⟩ := List.any_eq_true.mp hany
  obtain ⟨c, hc, hfrom⟩ := (U.nfkc_mem hdelimiter).mp hd
  obtain ⟨hc, hseparator⟩ := List.mem_filter.mp hc
  rw [Bool.not_eq_true'] at hseparator
  by_cases hascii : c.toNat < 128
  · -- A slash ends the netloc.
    rw [U.nfkc_ascii hascii, List.mem_singleton] at hfrom
    subst hfrom
    rw [Url.isDelimiter, hseparator, Bool.false_or, beq_iff_eq] at hdelimiter
    subst hdelimiter
    cases (rebuilt_plain h hplain hc).1
  · have hlower : c ∈ U.lower hostname := by
      rcases mem_rebuilt hc with hc | rfl | rfl | rfl | hc
      · exact hc
      · exact absurd (by decide) hascii
      · exact absurd (by decide) hascii
      · exact absurd (by decide) hascii
      · exact absurd (isDigit_ascii hc).1 hascii
    have hraw : c ∈ (Url.hostPort netloc).1 := by
      have hhost := U.nfkc_lower hdelimiter hlower hfrom
      rw [(hostname_raw h).2] at hhost
      rcases List.mem_append.mp hhost with hhost | hhost
      · exact Url.mem_of_mem_takeWhile (U.nfkc_lower hdelimiter hhost hfrom)
      · exact Url.mem_of_mem_dropWhile hhost
    have hnetloc := Url.mem_of_mem_hostPort hraw
    have hrefused := U.allowed_expands hallowed
    have hmixed : (netloc.all fun c => c.toNat < 128) = false := by
      rw [Bool.eq_false_iff]
      intro hall
      exact hascii (of_decide_eq_true (List.all_eq_true.mp hall c hnetloc))
    have hmem : c ∈ netloc.filter (!Url.isSeparator ·) :=
      List.mem_filter.mpr ⟨hnetloc, by rw [hseparator]; rfl⟩
    have hin : d ∈ U.nfkc (netloc.filter (!Url.isSeparator ·)) :=
      (U.nfkc_mem hdelimiter).mpr ⟨c, hmem, hfrom⟩
    have hany' : (U.nfkc (netloc.filter (!Url.isSeparator ·))).any Url.isDelimiter = true :=
      List.any_eq_true.mpr ⟨d, hin, hdelimiter⟩
    unfold Url.expands at hrefused
    dsimp only at hrefused
    rw [hmixed, hany', Bool.not_false, Bool.true_and, Bool.and_true, bne_eq_false_iff_eq] at hrefused
    -- The text is its own normal form, and has a delimiter no more.
    rw [hrefused] at hin
    obtain ⟨hin, hkept⟩ := List.mem_filter.mp hin
    rw [Bool.not_eq_true'] at hkept
    rw [Url.isDelimiter, hkept, Bool.false_or, beq_iff_eq] at hdelimiter
    subst hdelimiter
    cases (hplain _ hin).1

/-- The brackets that a canonical URL can have are those around an address. -/
def HostKept (hostname : List Char) : Prop := ':' ∉ hostname → '[' ∉ hostname ∧ ']' ∉ hostname

/-- An address in a canonical URL. -/
theorem address_raw (h : Url.hostname U.toUnicode netloc = some hostname)
    (hallowed : U.allowed netloc = true) (hcolon : ':' ∈ hostname) :
    ']' ∉ U.lower hostname ∧ Url.bracketedHost U.ipv6 (U.lower hostname) = true := by
  have hraw := (mem_hostname h (by decide) (by decide)).mp hcolon
  obtain ⟨-, ⟨hopen, hclose⟩ | ⟨hno, -⟩⟩ := Url.hostPort_split netloc
  · refine ⟨fun hmem => hclose ((mem_lower_hostname h (by decide) (by decide)).mp hmem), ?_⟩
    have hbrackets := (Bool.and_eq_true_iff.mp (U.allowed_brackets hallowed)).2
    have hcontains : netloc.contains '[' = true := List.contains_iff_mem.mpr hopen
    rw [hcontains, Bool.not_true, Bool.false_or] at hbrackets
    rw [lower_hostname h]
    exact U.bracketedHost_lower (Bool.and_eq_true_iff.mp hbrackets).2 hraw
  · exact absurd hraw hno

/-- An address does not begin with a bracket. -/
theorem address_head (h : Url.bracketedHost U.ipv6 hostname = true) : hostname.head? ≠ some '[' := by
  intro hhead
  obtain ⟨rest, rfl⟩ : ∃ rest, hostname = '[' :: rest := by
    cases hostname with
    | nil => cases hhead
    | cons c rest => exact ⟨rest, by rw [Option.some.inj hhead]⟩
  have hipv6 : U.ipv6 ('[' :: rest) = true := h
  obtain ⟨c, rest', hcons, hc⟩ := U.ipv6_head hipv6
  rw [← (List.cons.inj hcons).1] at hc
  rcases hc with hc | hc <;> cases hc

/-- A host with a colon stands in brackets, another one as it is. -/
theorem hostText_cases (h : Url.hostname U.toUnicode netloc = some hostname)
    (hallowed : U.allowed netloc = true) :
    (':' ∈ hostname ∧ hostText U.toUnicode hostname = '[' :: U.lower hostname ++ [']']) ∨
      (':' ∉ hostname ∧ hostText U.toUnicode hostname = U.lower hostname) := by
  by_cases hcolon : ':' ∈ hostname
  · refine .inl ⟨hcolon, if_pos ⟨hcolon, fun hhead => ?_⟩⟩
    refine address_head (address_raw h hallowed hcolon).2 ?_
    obtain ⟨rest, rfl⟩ : ∃ rest, hostname = '[' :: rest := by
      cases hostname with
      | nil => cases hhead
      | cons c rest => exact ⟨rest, by rw [Option.some.inj hhead]⟩
    obtain ⟨rest', hlower, -⟩ := U.lower_ascii rest (by decide : ['['].all (·.toNat < 128) = true)
    rw [show U.lower ('[' :: rest) = ['['].map Char.toLower ++ rest' from hlower]
    rfl
  · exact .inr ⟨hcolon, if_neg fun hboth => hcolon hboth.1⟩

/-- The digits of a port. -/
def portDigits : Option Nat → List Char
  | some port => Nat.toDigits 10 port
  | none => []

theorem portText_digits (port : Option Nat) :
    ((portText port).dropWhile (· ≠ ':')).drop 1 = portDigits port ∧
      (portText port).takeWhile (· ≠ ':') = [] := by
  cases port with
  | none => exact ⟨rfl, rfl⟩
  | some p =>
      exact ⟨by rw [portText, List.dropWhile_cons_of_neg (by decide)]; rfl,
        List.takeWhile_cons_of_neg (by decide)⟩

/-- The netloc of a canonical URL has the host and the port it was put together from. -/
theorem rebuilt_hostPort (h : Url.hostname U.toUnicode netloc = some hostname)
    (hallowed : U.allowed netloc = true) (hkept : HostKept hostname) :
    Url.hostPort (rebuilt U.toUnicode hostname port) = (U.lower hostname, portDigits port) := by
  obtain ⟨hdigits, hnone⟩ := portText_digits port
  have hinfo : Url.hostinfo (rebuilt U.toUnicode hostname port) = rebuilt U.toUnicode hostname port :=
    Url.hostinfo_self (rebuilt_no_user h)
  unfold Url.hostPort
  rw [hinfo]
  rcases hostText_cases h hallowed with ⟨hcolon, htext⟩ | ⟨hcolon, htext⟩
  · have hclose : ∀ c ∈ U.lower hostname, decide (c ≠ ']') = true := fun c hc =>
      decide_eq_true fun heq => (address_raw h hallowed hcolon).1 (heq ▸ hc)
    have hsplit : rebuilt U.toUnicode hostname port =
        '[' :: (U.lower hostname ++ ']' :: portText port) := by
      rw [rebuilt, htext]
      simp
    rw [hsplit, List.dropWhile_cons_of_neg (by decide)]
    dsimp only
    rw [List.takeWhile_append_of_pos hclose, List.dropWhile_append_of_pos hclose,
      List.takeWhile_cons_of_neg (by decide), List.append_nil,
      List.dropWhile_cons_of_neg (by decide), List.dropWhile_cons_of_pos (by decide), hdigits]
  · obtain ⟨hopen, -⟩ := hkept hcolon
    have hmem : ∀ {c : Char}, c.toNat < 128 → c.isAlpha = false →
        (c ∈ U.lower hostname ↔ c ∈ hostname) := fun hc halpha => U.lower_mem hc halpha
    have hbefore : ∀ c ∈ U.lower hostname, decide (c ≠ ':') = true := fun c hc =>
      decide_eq_true fun heq => hcolon ((hmem (by decide) (by decide)).mp (heq ▸ hc))
    have hnobracket : (rebuilt U.toUnicode hostname port).dropWhile (· ≠ '[') = [] := by
      rw [List.dropWhile_eq_nil_iff]
      refine fun c hc => decide_eq_true ?_
      rintro rfl
      rw [rebuilt, htext] at hc
      rcases List.mem_append.mp hc with hc | hc
      · exact hopen ((hmem (by decide) (by decide)).mp hc)
      · unfold portText at hc
        split at hc
        · rcases List.mem_cons.mp hc with hc | hc
          · cases hc
          · cases Nat.isDigit_of_mem_toDigits (by decide) (by decide) hc
        · cases hc
    rw [hnobracket]
    dsimp only
    rw [rebuilt, htext, List.takeWhile_append_of_pos hbefore, List.dropWhile_append_of_pos hbefore,
      hnone, List.append_nil, hdigits]

/-- Brackets in a netloc that is put together. -/
theorem bracket_rebuilt (h : Url.hostname U.toUnicode netloc = some hostname)
    (hallowed : U.allowed netloc = true) (hbracket : c = '[' ∨ c = ']') :
    c ∈ rebuilt U.toUnicode hostname port ↔ ':' ∈ hostname ∨ c ∈ hostname := by
  have hport : c ∉ portText port := fun hc => by
    unfold portText at hc
    split at hc
    · rcases List.mem_cons.mp hc with rfl | hc
      · rcases hbracket with hc | hc <;> cases hc
      · have hdigit := Nat.isDigit_of_mem_toDigits (by decide) (by decide) hc
        rcases hbracket with rfl | rfl <;> cases hdigit
    · cases hc
  have hlower : c ∈ U.lower hostname ↔ c ∈ hostname := by
    rcases hbracket with rfl | rfl
    · exact U.lower_mem (by decide) (by decide)
    · exact U.lower_mem (by decide) (by decide)
  unfold rebuilt
  rw [List.mem_append, or_iff_left hport]
  rcases hostText_cases h hallowed with ⟨hcolon, htext⟩ | ⟨hcolon, htext⟩
  · rw [htext]
    refine iff_of_true ?_ (.inl hcolon)
    rcases hbracket with rfl | rfl <;> simp
  · rw [htext, hlower, or_iff_right hcolon]

/-- The netloc of a canonical URL is taken. -/
theorem rebuilt_allowed (h : Url.hostname U.toUnicode netloc = some hostname)
    (hplain : ∀ c ∈ netloc, Url.endsNetloc c = false ∧ Url.isUnsafe c = false)
    (hallowed : U.allowed netloc = true) (hkept : HostKept hostname) :
    U.allowed (rebuilt U.toUnicode hostname port) = true := by
  refine U.allowed_of (rebuilt_no_user h) ?_ (rebuilt_expands h hplain hallowed)
  have hopen : '[' ∈ rebuilt U.toUnicode hostname port ↔ ':' ∈ hostname ∨ '[' ∈ hostname :=
    bracket_rebuilt h hallowed (.inl rfl)
  have hclose : ']' ∈ rebuilt U.toUnicode hostname port ↔ ':' ∈ hostname ∨ ']' ∈ hostname :=
    bracket_rebuilt h hallowed (.inr rfl)
  unfold Url.takesBrackets
  by_cases hcolon : ':' ∈ hostname
  · have htext : hostText U.toUnicode hostname = '[' :: U.lower hostname ++ [']'] := by
      rcases hostText_cases h hallowed with ⟨-, htext⟩ | ⟨hno, -⟩
      · exact htext
      · exact absurd hcolon hno
    obtain ⟨hnoclose, haddress⟩ := address_raw h hallowed hcolon
    have hcontains : (rebuilt U.toUnicode hostname port).contains '[' = true :=
      List.contains_iff_mem.mpr (hopen.mpr (.inl hcolon))
    have hcontains' : (rebuilt U.toUnicode hostname port).contains ']' = true :=
      List.contains_iff_mem.mpr (hclose.mpr (.inl hcolon))
    have hclosed : ∀ c ∈ U.lower hostname, decide (c ≠ ']') = true := fun c hc =>
      decide_eq_true fun heq => hnoclose (heq ▸ hc)
    have hsplit : rebuilt U.toUnicode hostname port =
        '[' :: (U.lower hostname ++ ']' :: portText port) := by
      rw [rebuilt, htext]
      simp
    have huser : '@' ∉ U.lower hostname ++ ']' :: portText port := fun hmem =>
      rebuilt_no_user h (hsplit ▸ List.mem_cons_of_mem _ hmem)
    have hafter : ((U.lower hostname ++ ']' :: portText port).dropWhile (· ≠ ']')).drop 1 =
        portText port := by
      rw [List.dropWhile_append_of_pos hclosed, List.dropWhile_cons_of_neg (by decide)]
      rfl
    have hbefore : (U.lower hostname ++ ']' :: portText port).takeWhile (· ≠ ']') =
        U.lower hostname := by
      rw [List.takeWhile_append_of_pos hclosed, List.takeWhile_cons_of_neg (by decide),
        List.append_nil]
    rw [hcontains, hcontains', hsplit, Url.bracketedNetloc_open huser, hafter, hbefore, haddress]
    cases port <;> rfl
  · obtain ⟨hno, hno'⟩ := hkept hcolon
    have hcontains : (rebuilt U.toUnicode hostname port).contains '[' = false := by
      rw [Bool.eq_false_iff, ne_eq, List.contains_iff_mem, hopen]
      tauto
    have hcontains' : (rebuilt U.toUnicode hostname port).contains ']' = false := by
      rw [Bool.eq_false_iff, ne_eq, List.contains_iff_mem, hclose]
      tauto
    rw [hcontains, hcontains']
    rfl

/-- The host of a canonical URL is in lower case. -/
theorem rebuilt_hostname (h : Url.hostname U.toUnicode netloc = some hostname)
    (hallowed : U.allowed netloc = true) (hkept : HostKept hostname) :
    Url.hostname U.toUnicode (rebuilt U.toUnicode hostname port) = some (U.lower hostname) := by
  have hne : U.lower hostname ≠ [] := by
    refine U.lower_ne_nil ?_
    obtain ⟨hraw, rfl⟩ := hostname_raw h
    intro hnil
    obtain ⟨hfirst, hrest⟩ := List.append_eq_nil_iff.mp hnil
    have hfirst : (Url.hostPort netloc).1.takeWhile (· ≠ '%') = [] := by
      by_contra hsome
      exact U.lower_ne_nil hsome hfirst
    rw [← List.takeWhile_append_dropWhile (p := (· ≠ '%')) (l := (Url.hostPort netloc).1), hfirst,
      hrest] at hraw
    exact hraw rfl
  have hfirst : U.lower ((U.lower hostname).takeWhile (· ≠ '%')) =
      (U.lower hostname).takeWhile (· ≠ '%') :=
    U.lower_self fun c hc => U.lower_fixed (Url.mem_of_mem_takeWhile hc)
  unfold Url.hostname
  rw [rebuilt_hostPort h hallowed hkept]
  split
  · next hnil => exact absurd hnil hne
  · rw [hfirst, List.takeWhile_append_dropWhile]

/-- The text of a host in lower case is that of the host. -/
theorem hostText_lower (h : Url.hostname U.toUnicode netloc = some hostname)
    (hallowed : U.allowed netloc = true) :
    hostText U.toUnicode (U.lower hostname) = hostText U.toUnicode hostname := by
  have hcolonIff : ':' ∈ U.lower hostname ↔ ':' ∈ hostname := U.lower_mem (by decide) (by decide)
  rcases hostText_cases h hallowed with ⟨hcolon, htext⟩ | ⟨hcolon, htext⟩
  · rw [htext, hostText, if_pos ⟨hcolonIff.mpr hcolon,
      address_head (address_raw h hallowed hcolon).2⟩, U.lower_lower]
  · rw [htext, hostText, if_neg fun hboth => hcolon (hcolonIff.mp hboth.1), U.lower_lower]

/-- The port of a canonical URL is read back. -/
theorem rebuilt_port (h : Url.hostname U.toUnicode netloc = some hostname)
    (hallowed : U.allowed netloc = true) (hkept : HostKept hostname)
    (hport : ∀ p ∈ port, p ≤ 65535) :
    Url.port (rebuilt U.toUnicode hostname port) = some port := by
  unfold Url.port
  rw [rebuilt_hostPort h hallowed hkept]
  cases port with
  | none => rfl
  | some p =>
      have hdigits : (Nat.toDigits 10 p).all Char.isDigit = true :=
        List.all_eq_true.mpr fun c hc => Nat.isDigit_of_mem_toDigits (by decide) (by decide) hc
      have hnumber : Url.number (Nat.toDigits 10 p) = p := Nat.ofDigitChars_ten_toDigits
      have hle : p ≤ 65535 := hport p rfl
      dsimp only [portDigits]
      split
      · next hnil => exact absurd hnil Nat.toDigits_ne_nil
      · rw [hnumber, if_pos ⟨hdigits, hle⟩]

/-- A port that was read is a port. -/
theorem port_le (h : Url.port netloc = some port) : ∀ p ∈ port, p ≤ 65535 := by
  intro p hp
  unfold Url.port at h
  split at h
  · rw [← Option.some.inj h] at hp
    cases hp
  · split at h
    · next hboth =>
        rw [← Option.some.inj h] at hp
        rw [← Option.some.inj hp]
        exact hboth.2
    · cases h

end Netlocs

/-! ## White space at the end -/

/-- The text ends in white space. -/
def EndsInSpace (s : List Char) : Prop := ∃ c ∈ s.getLast?, Text.isSpace c = true

theorem rstrip_eq_self {s : List Char} : Url.rstrip s = s ↔ ¬EndsInSpace s := by
  unfold Url.rstrip EndsInSpace
  rw [List.rdropWhile_eq_self_iff]
  constructor
  · rintro h ⟨c, hc, hspace⟩
    have hne : s ≠ [] := by
      rintro rfl
      cases hc
    rw [List.getLast?_eq_getLast_of_ne_nil hne] at hc
    exact h hne (Option.some.inj hc ▸ hspace)
  · intro h hne hspace
    exact h ⟨_, List.getLast?_eq_getLast_of_ne_nil hne, hspace⟩

theorem length_rstrip_lt {s : List Char} (h : EndsInSpace s) :
    (Url.rstrip s).length < s.length := by
  have hle : (Url.rstrip s).length ≤ s.length := (List.rdropWhile_prefix _ _).length_le
  refine lt_of_le_of_ne hle fun heq => ?_
  exact (rstrip_eq_self.mp ((List.rdropWhile_prefix _ _).eq_of_length heq)) h

theorem endsInSpace_append {s t : List Char} (ht : t ≠ []) :
    EndsInSpace (s ++ t) ↔ EndsInSpace t := by
  unfold EndsInSpace
  rw [List.getLast?_append_of_ne_nil _ ht]

theorem isWritten_not_space {c : Char} (h : isWritten c = true ∨ c = '=' ∨ c = '&') :
    Text.isSpace c = false := by
  rw [Bool.eq_false_iff]
  intro hspace
  have hgraphic : 33 ≤ c.toNat ∧ c.toNat < 128 := by
    rcases h with h | rfl | rfl
    · exact isWritten_graphic h
    · exact ⟨by decide, by decide⟩
    · exact ⟨by decide, by decide⟩
  simp only [Text.isSpace, Bool.or_eq_true, Bool.and_eq_true, decide_eq_true_eq,
    beq_iff_eq] at hspace
  omega

/-- A query string does not end in white space. -/
theorem urlencode_end {pairs : List Pair} (h : pairs ≠ []) :
    ¬EndsInSpace (Url.marked (urlencode pairs)) := by
  rintro ⟨c, hc, hspace⟩
  have hne : urlencode pairs ≠ [] := fun hnil => h (urlencode_eq_nil.mp hnil)
  rw [Url.marked, if_neg hne, ← List.singleton_append, List.getLast?_append_of_ne_nil _ hne] at hc
  rw [isWritten_not_space (mem_urlencode (List.mem_of_getLast? hc))] at hspace
  cases hspace

theorem portText_end {port : Option Nat} (h : port ≠ none) : ¬EndsInSpace (portText port) := by
  rintro ⟨c, hc, hspace⟩
  cases port with
  | none => exact h rfl
  | some p =>
      rw [portText, ← List.singleton_append,
        List.getLast?_append_of_ne_nil _ Nat.toDigits_ne_nil] at hc
      have hdigit := Nat.isDigit_of_mem_toDigits (by decide) (by decide) (List.mem_of_getLast? hc)
      rw [(isDigit_ascii hdigit).2.2.2.2.2.2.2.2] at hspace
      cases hspace

/-! ## Which canonical URLs are steady -/

/-- What a URL that is taken apart in this way must be like. -/
structure SteadyParts (U : Url.Unicode) (url : List Char) (parsed : Url.SplitResult)
    (hostname : List Char) (port : Option Nat) : Prop where
  /-- It is no `http` URL with the default port of `https`. -/
  defaultPort : ¬(U.lower parsed.scheme = http ∧ port = some 443)
  /-- The host has no brackets but those around an address. -/
  brackets : HostKept hostname
  /-- No white space comes to the end when the query is dropped, after the path, -/
  pathEnd : keptPairs U (Url.query (strip url)) = [] →
    ¬EndsInSpace (normalizePath (Url.path (strip url)))
  /-- or after a host that ends the URL. -/
  hostEnd : keptPairs U (Url.query (strip url)) = [] → Url.path (strip url) = [] →
    keptPort (U.lower parsed.scheme) port = none → ':' ∉ hostname →
    ¬EndsInSpace (U.lower hostname)

/-- A URL whose canonical form is its own. -/
def Steady (U : Url.Unicode) (url : List Char) : Prop :=
  ∀ parsed hostname port, Reads U url parsed hostname port →
    SteadyParts U url parsed hostname port

section Again
variable {U : Url.NetlocTable} {url : List Char} {parsed : Url.SplitResult}
  {hostname : List Char} {port : Option Nat}

theorem Reads.allowed (h : Reads U.toUnicode url parsed hostname port) :
    U.allowed parsed.netloc = true ∧ parsed.netloc = Url.netlocOf (strip url) := by
  have hsplit := h.split
  unfold Url.urlsplit at hsplit
  split at hsplit
  · next hallowed =>
      rw [← Option.some.inj hsplit]
      exact ⟨hallowed, rfl⟩
  · cases hsplit

theorem Reads.plain (h : Reads U.toUnicode url parsed hostname port) :
    ∀ c ∈ parsed.netloc, Url.endsNetloc c = false ∧ Url.isUnsafe c = false := by
  rw [h.allowed.2]
  exact fun c hc => Url.netlocOf_plain hc

theorem Reads.path_root (h : Reads U.toUnicode url parsed hostname port) :
    Url.path (strip url) = [] ∨ ∃ s, Url.path (strip url) = '/' :: s :=
  Url.path_of_netloc fun hnil => h.netloc (h.allowed.2.trans hnil)

theorem mem_normalizePath {path : List Char} {c : Char} (h : path = [] ∨ ∃ s, path = '/' :: s)
    (hc : c ∈ normalizePath path) : c ∈ path ∨ c = '/' := by
  rcases h with rfl | ⟨s, rfl⟩
  · exact .inl hc
  · obtain ⟨t, ht, hhead⟩ := collapseSlashes_root s
    rw [normalizePath_root (List.cons_ne_nil _ _) ht hhead] at hc
    split at hc
    · exact .inr (List.mem_singleton.mp hc)
    · obtain ⟨part, hpart, hc⟩ := List.mem_flatMap.mp hc
      rcases List.mem_cons.mp hc with rfl | hc
      · exact .inr rfl
      · have hin : c ∈ rooted (t.splitOn '/') := by
          rcases List.mem_append.mp hpart with hpart | hpart
          · exact List.mem_flatMap.mpr
              ⟨part, mem_of_readComponents hpart, List.mem_cons_of_mem _ hc⟩
          · unfold Ending at hpart
            split at hpart
            · rw [List.mem_singleton.mp hpart] at hc
              cases hc
            · cases hpart
        rw [rooted_splitOn, ← ht] at hin
        exact .inl ((collapseSlashes_sublist _).subset hin)

/-- The parts of a canonical URL are as `urlsplit` gives them. -/
theorem Reads.parts (h : Reads U.toUnicode url parsed hostname port) (port' : Option Nat) :
    Url.Parts (rebuilt U.toUnicode hostname port') (normalizePath (Url.path (strip url)))
      (urlencode (keptPairs U.toUnicode (Url.query (strip url)))) := by
  refine ⟨fun c hc => rebuilt_plain h.hostname h.plain hc, ?_, fun c hc => ?_, fun c hc => ?_⟩
  · rcases h.path_root with hpath | ⟨s, hpath⟩
    · rw [hpath]
      exact .inl rfl
    · obtain ⟨comps, trailing, hnormal, hshape, -⟩ := normalizePath_shape s
      rw [hpath, hshape]
      cases hcons : comps ++ Ending trailing with
      | nil => exact .inl rfl
      | cons comp others => exact .inr ⟨_, rfl⟩
  · rcases mem_normalizePath h.path_root hc with hc | rfl
    · exact Url.path_plain hc
    · exact ⟨by decide, by decide, by decide⟩
  · rcases mem_urlencode hc with hwritten | rfl | rfl
    · constructor
      · rintro rfl
        cases hwritten
      · rw [Bool.eq_false_iff]
        intro hunsafe
        simp only [Url.isUnsafe, Bool.or_eq_true, beq_iff_eq] at hunsafe
        rcases hunsafe with (rfl | rfl) | rfl <;> cases hwritten
    · exact ⟨by decide, by decide⟩
    · exact ⟨by decide, by decide⟩

/-- Parts that make the same URL are the same. -/
theorem parts_eq {netloc path query netloc' path' query' : List Char}
    (h : Url.Parts netloc path query) (h' : Url.Parts netloc' path' query')
    (heq : Url.urlunsplit Url.https netloc path query =
      Url.urlunsplit Url.https netloc' path' query') :
    netloc = netloc' ∧ path = path' ∧ query = query' := by
  refine ⟨?_, ?_, ?_⟩
  · rw [← Url.netlocOf_unsplit h, heq, Url.netlocOf_unsplit h']
  · rw [← Url.path_unsplit h, heq, Url.path_unsplit h']
  · rw [← Url.query_unsplit h, heq, Url.query_unsplit h']

theorem keptPort_some {scheme : List Char} {p : Nat}
    (h : ¬((scheme = http ∧ p = 80) ∨ (scheme = Url.https ∧ p = 443))) :
    keptPort scheme (some p) = some p := by
  rw [keptPort, Option.filter_some, if_pos]
  rw [Bool.not_eq_true', ← Bool.not_eq_true]
  simpa only [Bool.or_eq_true, Bool.and_eq_true, beq_iff_eq] using h

theorem http_ne_https : http ≠ Url.https := by decide

theorem keptPort_again {scheme : List Char} (hscheme : scheme = http ∨ scheme = Url.https)
    (h : ¬(scheme = http ∧ port = some 443)) :
    keptPort Url.https (keptPort scheme port) = keptPort scheme port := by
  cases port with
  | none => rfl
  | some p =>
      by_cases hdefault : (scheme = http ∧ p = 80) ∨ (scheme = Url.https ∧ p = 443)
      · rcases hdefault with ⟨rfl, rfl⟩ | ⟨rfl, rfl⟩ <;> rfl
      · rw [keptPort_some hdefault]
        refine keptPort_some ?_
        rintro (⟨heq, -⟩ | ⟨-, rfl⟩)
        · exact http_ne_https heq.symm
        · rcases hscheme with hscheme | hscheme
          · exact h ⟨hscheme, rfl⟩
          · exact hdefault (.inr ⟨hscheme, rfl⟩)

theorem keptPort_le {scheme : List Char} (h : ∀ p ∈ port, p ≤ 65535) :
    ∀ p ∈ keptPort scheme port, p ≤ 65535 := by
  intro p hp
  unfold keptPort at hp
  rw [Option.mem_def, Option.filter_eq_some_iff] at hp
  exact h p hp.1

theorem lower_https : U.lower Url.https = Url.https := by
  rw [U.lower_plain (by decide)]
  decide

theorem normalizePath_eq_nil {path : List Char} (h : path = [] ∨ ∃ s, path = '/' :: s) :
    normalizePath path = [] ↔ path = [] := by
  rcases h with rfl | ⟨s, rfl⟩
  · exact ⟨fun _ => rfl, fun _ => rfl⟩
  · refine iff_of_false (fun hnil => ?_) (List.cons_ne_nil _ _)
    obtain ⟨t, ht, hhead⟩ := collapseSlashes_root s
    rw [normalizePath_root (List.cons_ne_nil _ _) ht hhead] at hnil
    split at hnil
    · cases hnil
    · next hne =>
        cases hcons : readComponents true (t.splitOn '/') with
        | nil => exact hne hcons
        | cons comp others =>
            rw [hcons] at hnil
            cases hnil

/-- A canonical URL does not end in white space when its path and its host do not. -/
theorem Reads.no_space (h : Reads U.toUnicode url parsed hostname port)
    (hsteady : SteadyParts U.toUnicode url parsed hostname port) :
    ¬EndsInSpace (rebuilt U.toUnicode hostname (keptPort (U.lower parsed.scheme) port) ++
      (normalizePath (Url.path (strip url)) ++
        Url.marked (urlencode (keptPairs U.toUnicode (Url.query (strip url)))))) := by
  by_cases hpairs : keptPairs U.toUnicode (Url.query (strip url)) = []
  · have hmarked : Url.marked (urlencode (keptPairs U.toUnicode (Url.query (strip url)))) = [] := by
      rw [hpairs]
      rfl
    rw [hmarked, List.append_nil]
    by_cases hpath : Url.path (strip url) = []
    · rw [hpath]
      show ¬EndsInSpace (_ ++ [])
      rw [List.append_nil, rebuilt]
      by_cases hport : keptPort (U.lower parsed.scheme) port = none
      · rw [hport]
        show ¬EndsInSpace (_ ++ [])
        rw [List.append_nil]
        rcases hostText_cases h.hostname h.allowed.1 with ⟨-, htext⟩ | ⟨hcolon, htext⟩
        · rw [htext, endsInSpace_append (List.cons_ne_nil _ _)]
          rintro ⟨c, hc, hspace⟩
          rw [← Option.some.inj (hc : some ']' = some c)] at hspace
          cases hspace
        · rw [htext]
          exact hsteady.hostEnd hpairs hpath hport hcolon
      · have hne : portText (keptPort (U.lower parsed.scheme) port) ≠ [] := by
          cases hkept : keptPort (U.lower parsed.scheme) port with
          | none => exact absurd hkept hport
          | some p => exact List.cons_ne_nil _ _
        rw [endsInSpace_append hne]
        exact portText_end hport
    · rw [endsInSpace_append fun hnil => hpath ((normalizePath_eq_nil h.path_root).mp hnil)]
      exact hsteady.pathEnd hpairs
  · have hne : Url.marked (urlencode (keptPairs U.toUnicode (Url.query (strip url)))) ≠ [] := by
      rw [Url.marked, if_neg fun hnil => hpairs (urlencode_eq_nil.mp hnil)]
      exact List.cons_ne_nil _ _
    rw [← List.append_assoc, endsInSpace_append hne]
    exact urlencode_end hpairs

/-- A steady URL has a canonical form that is its own. -/
theorem Reads.again (h : Reads U.toUnicode url parsed hostname port)
    (hsteady : SteadyParts U.toUnicode url parsed hostname port) :
    canonicalizeUrl U.toUnicode (putTogether U.toUnicode (strip url) parsed hostname port) =
      some (putTogether U.toUnicode (strip url) parsed hostname port) := by
  have hparts := h.parts (keptPort (U.lower parsed.scheme) port)
  have hstrip := Url.strip_unsplit_self hparts (rstrip_eq_self.mpr (h.no_space hsteady))
  have hallowed := h.allowed.1
  set canon := putTogether U.toUnicode (strip url) parsed hostname port with hcanon
  change strip canon = canon at hstrip
  set netloc := rebuilt U.toUnicode hostname (keptPort (U.lower parsed.scheme) port)
  have hhost : Url.hostname U.toUnicode netloc = some (U.lower hostname) :=
    rebuilt_hostname h.hostname hallowed hsteady.brackets
  refine canonicalizeUrl_eq_some.mpr ⟨⟨Url.https, netloc⟩, U.lower hostname,
    keptPort (U.lower parsed.scheme) port, ⟨?_, ?_, .inr lower_https, ?_, hhost, ?_⟩, ?_⟩
  · rw [hstrip, hcanon, putTogether, Url.urlunsplit_eq hparts]
    exact List.cons_ne_nil _ _
  · rw [hstrip, hcanon, putTogether, Url.urlsplit_unsplit hparts,
      if_pos (rebuilt_allowed h.hostname h.plain hallowed hsteady.brackets)]
  · intro hnil
    change netloc = [] at hnil
    rw [hnil] at hhost
    cases hhost
  · exact rebuilt_port h.hostname hallowed hsteady.brackets (keptPort_le (port_le h.port))
  · rw [hstrip, putTogether]
    dsimp only
    have hpath : Url.path canon = normalizePath (Url.path (strip url)) := Url.path_unsplit hparts
    have hquery : Url.query canon = urlencode (keptPairs U.toUnicode (Url.query (strip url))) :=
      Url.query_unsplit hparts
    rw [hpath, hquery, normalizePath_normalizePath h.path_root, keptPairs_urlencode, lower_https,
      keptPort_again h.scheme hsteady.defaultPort, rebuilt, hostText_lower h.hostname hallowed]
    rfl

/-- Stripping a canonical URL takes nothing away, or white space after its path or its netloc. -/
theorem strip_cases {netloc path query : List Char} (h : Url.Parts netloc path query)
    (hquery : query ≠ [] → ¬EndsInSpace (Url.marked query)) :
    ∃ netloc' path', strip (Url.urlunsplit Url.https netloc path query) =
        Url.urlunsplit Url.https netloc' path' query ∧ Url.Parts netloc' path' query ∧
      ((netloc' = netloc ∧ path' = path ∧ ¬EndsInSpace (netloc ++ (path ++ Url.marked query))) ∨
        (query = [] ∧ path ≠ [] ∧ netloc' = netloc ∧ path' = Url.rstrip path ∧ EndsInSpace path) ∨
        (query = [] ∧ path = [] ∧ netloc' = Url.rstrip netloc ∧ path' = [] ∧
          EndsInSpace netloc)) := by
  by_cases hends : EndsInSpace (netloc ++ (path ++ Url.marked query))
  · obtain rfl : query = [] := by
      by_contra hne
      have hmarked : Url.marked query ≠ [] := by
        rw [Url.marked, if_neg hne]
        exact List.cons_ne_nil _ _
      rw [← List.append_assoc, endsInSpace_append hmarked] at hends
      exact hquery hne hends
    have hnone : Url.marked [] = [] := rfl
    rw [hnone, List.append_nil] at hends
    by_cases hpath : path = []
    · subst hpath
      rw [List.append_nil] at hends
      exact ⟨_, [], Url.strip_unsplit_netloc h, h.rstrip, .inr (.inr ⟨rfl, rfl, rfl, rfl, hends⟩)⟩
    · rw [endsInSpace_append hpath] at hends
      exact ⟨netloc, _, Url.strip_unsplit_path h hpath,
        ⟨h.netloc, h.rstrip.slash, h.rstrip.path, h.query⟩,
        .inr (.inl ⟨rfl, hpath, rfl, rfl, hends⟩)⟩
  · exact ⟨netloc, path, Url.strip_unsplit_self h (rstrip_eq_self.mpr hends), h,
      .inl ⟨rfl, rfl, hends⟩⟩

theorem mem_rstrip {s : List Char} {c : Char} (hc : Text.isSpace c = false) :
    c ∈ Url.rstrip s ↔ c ∈ s := by
  constructor
  · exact fun h => (List.rdropWhile_prefix _ _).subset h
  · intro h
    rw [← List.rdropWhile_append_rtakeWhile (p := Text.isSpace) (l := s)] at h
    refine (List.mem_append.mp h).resolve_right fun hspace => ?_
    rw [List.mem_rtakeWhile_imp hspace] at hc
    cases hc

/-- A text in lower case that can be a host is a netloc of its own. -/
theorem host_of_lower {host : List Char} (hlower : ∀ c ∈ host, U.lower [c] = [c])
    (huser : '@' ∉ host) (hopen : '[' ∉ host) (hcolon : ':' ∉ host) (hne : host ≠ []) :
    Url.hostname U.toUnicode host = some host ∧ Url.port host = some none := by
  have hnobracket : host.dropWhile (· ≠ '[') = [] :=
    List.dropWhile_eq_nil_iff.mpr fun c hc => decide_eq_true fun heq => hopen (heq ▸ hc)
  have hbefore : ∀ c ∈ host, decide (c ≠ ':') = true := fun c hc =>
    decide_eq_true fun heq => hcolon (heq ▸ hc)
  have hhost : Url.hostPort host = (host, []) := by
    unfold Url.hostPort
    rw [Url.hostinfo_self huser, hnobracket]
    dsimp only
    rw [List.takeWhile_eq_self_iff.mpr hbefore, List.dropWhile_eq_nil_iff.mpr hbefore]
    rfl
  have hfirst : U.lower (host.takeWhile (· ≠ '%')) = host.takeWhile (· ≠ '%') :=
    U.lower_self fun c hc => hlower c (Url.mem_of_mem_takeWhile hc)
  constructor
  · unfold Url.hostname
    rw [hhost]
    split
    · next hnil => exact absurd hnil hne
    · rw [hfirst, List.takeWhile_append_dropWhile]
  · unfold Url.port
    rw [hhost]

/-- A URL whose canonical form is its own is steady. -/
theorem Reads.steady (h : Reads U.toUnicode url parsed hostname port)
    (hagain : canonicalizeUrl U.toUnicode (putTogether U.toUnicode (strip url) parsed hostname port)
      = some (putTogether U.toUnicode (strip url) parsed hostname port)) :
    SteadyParts U.toUnicode url parsed hostname port := by
  have hparts := h.parts (keptPort (U.lower parsed.scheme) port)
  have hallowed := h.allowed.1
  have hquery : urlencode (keptPairs U.toUnicode (Url.query (strip url))) ≠ [] →
      ¬EndsInSpace (Url.marked (urlencode (keptPairs U.toUnicode (Url.query (strip url))))) :=
    fun hne => urlencode_end fun hnil => hne (urlencode_eq_nil.mpr hnil)
  set kept := keptPort (U.lower parsed.scheme) port with hkept
  set netloc := rebuilt U.toUnicode hostname kept with hnetloc
  set path := normalizePath (Url.path (strip url)) with hpath
  set query := urlencode (keptPairs U.toUnicode (Url.query (strip url))) with hqueryDef
  have hcanon : putTogether U.toUnicode (strip url) parsed hostname port =
      Url.urlunsplit Url.https netloc path query := rfl
  rw [hcanon] at hagain
  obtain ⟨netloc', path', hstrip, hparts', hcases⟩ := strip_cases hparts hquery
  obtain ⟨parsed', hostname', port', h', heq⟩ := canonicalizeUrl_eq_some.mp hagain
  -- The second reading is of the stripped URL.
  have hsplit := h'.split
  rw [hstrip, Url.urlsplit_unsplit hparts'] at hsplit
  obtain ⟨hallowed', rfl⟩ : U.allowed netloc' = true ∧ parsed' = ⟨Url.https, netloc'⟩ := by
    split at hsplit
    · next hallowed' => exact ⟨hallowed', (Option.some.inj hsplit).symm⟩
    · cases hsplit
  obtain ⟨hsameNetloc, hsamePath, -⟩ := parts_eq hparts (h'.parts _) heq
  rw [hstrip, Url.path_unsplit hparts'] at hsamePath
  have hbracketMem : ∀ {c : Char}, c = '[' ∨ c = ']' → (c ∈ netloc' ↔ c ∈ netloc) := by
    intro c hc
    have hspace : Text.isSpace c = false := by rcases hc with rfl | rfl <;> decide
    rcases hcases with ⟨rfl, -⟩ | ⟨-, -, rfl, -⟩ | ⟨-, -, rfl, -⟩
    · exact Iff.rfl
    · exact Iff.rfl
    · exact mem_rstrip hspace
  have hbrackets : HostKept hostname := by
    intro hcolon
    have hboth : '[' ∈ netloc' ↔ ']' ∈ netloc' := by
      have htakes := (Bool.and_eq_true_iff.mp (U.allowed_brackets hallowed')).1
      rw [beq_iff_eq, Bool.eq_iff_iff, List.contains_iff_mem, List.contains_iff_mem] at htakes
      exact htakes
    rw [hbracketMem (.inl rfl), hbracketMem (.inr rfl), hnetloc,
      bracket_rebuilt h.hostname hallowed (.inl rfl), bracket_rebuilt h.hostname hallowed (.inr rfl),
      or_iff_right hcolon, or_iff_right hcolon] at hboth
    have hopen := mem_hostname h.hostname (by decide : '['.toNat < 128) (by decide)
    have hclose := mem_hostname h.hostname (by decide : ']'.toNat < 128) (by decide)
    obtain ⟨-, ⟨-, hno⟩ | ⟨-, hno⟩⟩ := Url.hostPort_split parsed.netloc
    · exact ⟨fun hmem => hno (hclose.mp (hboth.mp hmem)), fun hmem => hno (hclose.mp hmem)⟩
    · exact ⟨fun hmem => hno (hopen.mp hmem), fun hmem => hno (hopen.mp (hboth.mpr hmem))⟩
  refine ⟨?_, hbrackets, fun hpairs hends => ?_, fun hpairs hnone hport hcolon hends => ?_⟩
  · -- A port that is kept is dropped when the URL is read again.
    rintro ⟨hscheme, rfl⟩
    have hkept443 : keptPort (U.lower parsed.scheme) (some 443) = some 443 := by
      rw [hscheme]
      rfl
    have hport : kept = some 443 := hkept443
    have hsame : netloc' = netloc := by
      rcases hcases with ⟨hsame, -⟩ | ⟨-, -, hsame, -⟩ | ⟨-, -, -, -, hends⟩
      · exact hsame
      · exact hsame
      · have hne : portText (some 443) ≠ [] := List.cons_ne_nil _ _
        rw [hnetloc, rebuilt, hport, endsInSpace_append hne] at hends
        exact absurd hends (portText_end (Option.some_ne_none _))
    have hhost := h'.hostname
    have hport' := h'.port
    dsimp only at hhost hport'
    rw [hsame, hnetloc, rebuilt_hostname h.hostname hallowed hbrackets] at hhost
    rw [hsame, hnetloc, rebuilt_port h.hostname hallowed hbrackets (keptPort_le (port_le h.port)),
      hkept443] at hport'
    obtain rfl := Option.some.inj hhost
    obtain rfl := Option.some.inj hport'
    have hdropped : keptPort (U.lower Url.https) (some 443) = none := by
      rw [lower_https]
      rfl
    dsimp only at hsameNetloc
    rw [hdropped, hnetloc, rebuilt, rebuilt, hostText_lower h.hostname hallowed, hport] at hsameNetloc
    exact absurd (List.append_cancel_left hsameNetloc) (List.cons_ne_nil _ _)
  · change EndsInSpace path at hends
    have hnil : query = [] := urlencode_eq_nil.mpr hpairs
    have hne : path ≠ [] := by
      intro hnone
      rw [hnone] at hends
      obtain ⟨c, hc, -⟩ := hends
      cases hc
    rcases hcases with ⟨-, -, hno⟩ | ⟨-, -, -, hstripped, -⟩ | ⟨-, hnone, -⟩
    · refine hno ?_
      have hmarked : Url.marked query = [] := by rw [hnil]; rfl
      rw [hmarked, List.append_nil, endsInSpace_append hne]
      exact hends
    · -- The path that is stripped is shorter, and is not made longer.
      rcases hparts'.slash with hempty | ⟨rest, hrest⟩
      · rw [hempty] at hsamePath
        exact hne hsamePath
      · obtain ⟨-, -, -, -, hlength⟩ := normalizePath_shape rest
        have hlt := length_rstrip_lt hends
        rw [← hrest, ← hsamePath] at hlength
        rw [← hstripped, hrest, List.length_cons] at hlt
        omega
    · exact hne hnone
  · have hpathNil : path = [] := (normalizePath_eq_nil h.path_root).mpr hnone
    have hnil : query = [] := urlencode_eq_nil.mpr hpairs
    have htext : netloc = U.lower hostname := by
      rcases hostText_cases h.hostname hallowed with ⟨hyes, -⟩ | ⟨-, htext⟩
      · exact absurd hyes hcolon
      · have hkeptNone : kept = none := hport
        rw [hnetloc, rebuilt, hkeptNone, htext]
        exact List.append_nil _
    rcases hcases with ⟨-, -, hno⟩ | ⟨-, hne, -⟩ | ⟨-, -, hstripped, -⟩
    · refine hno ?_
      have hmarked : Url.marked query = [] := by rw [hnil]; rfl
      rw [hmarked, hpathNil, List.append_nil, List.append_nil, htext]
      exact hends
    · exact hne hpathNil
    · rw [htext] at hstripped
      have hsub : ∀ {c : Char}, c ∈ netloc' → c ∈ U.lower hostname := fun hc =>
        (List.rdropWhile_prefix _ _).subset (hstripped ▸ hc)
      have hraw : ∀ {c : Char}, c.toNat < 128 → c.isAlpha = false → c ∈ netloc' →
          c ∈ hostname := fun hc halpha hmem => (U.lower_mem hc halpha).mp (hsub hmem)
      have huser : '@' ∉ netloc' := fun hmem => (Url.hostPort_split parsed.netloc).1
        ((mem_hostname h.hostname (by decide) (by decide)).mp (hraw (by decide) (by decide) hmem))
      have hopen : '[' ∉ netloc' := fun hmem =>
        (hbrackets hcolon).1 (hraw (by decide) (by decide) hmem)
      have hnocolon : ':' ∉ netloc' := fun hmem => hcolon (hraw (by decide) (by decide) hmem)
      have hfixed : ∀ c ∈ netloc', U.lower [c] = [c] := fun c hc => U.lower_fixed (hsub hc)
      obtain ⟨hhost, hnoport⟩ := host_of_lower hfixed huser hopen hnocolon h'.netloc
      have hhost' := h'.hostname
      have hport' := h'.port
      dsimp only at hhost' hport'
      obtain rfl := Option.some.inj (hhost.symm.trans hhost')
      obtain rfl := Option.some.inj (hnoport.symm.trans hport')
      have hself : rebuilt U.toUnicode netloc' (keptPort (U.lower Url.https) none) = netloc' := by
        rw [rebuilt, hostText, if_neg fun hboth => hnocolon hboth.1, U.lower_self hfixed]
        exact List.append_nil _
      dsimp only at hsameNetloc
      rw [hself, htext] at hsameNetloc
      have hlt := length_rstrip_lt hends
      rw [← hstripped, ← hsameNetloc] at hlt
      exact absurd hlt (lt_irrefl _)

end Again

/-- The canonical form of a URL is its own canonical form if and only if the URL is steady: not
`http` with the port 443, without white space that comes to the end, and without brackets
around no address. -/
theorem canonicalizeUrl_again_iff (U : Url.NetlocTable) (url canon : List Char)
    (h : canonicalizeUrl U.toUnicode url = some canon) :
    canonicalizeUrl U.toUnicode canon = some canon ↔ Steady U.toUnicode url := by
  obtain ⟨parsed, hostname, port, hreads, rfl⟩ := canonicalizeUrl_eq_some.mp h
  constructor
  · intro hagain parsed' hostname' port' hreads'
    obtain rfl := Option.some.inj (hreads.split.symm.trans hreads'.split)
    obtain rfl := Option.some.inj (hreads.hostname.symm.trans hreads'.hostname)
    obtain rfl := Option.some.inj (hreads.port.symm.trans hreads'.port)
    exact hreads.steady hagain
  · exact fun hsteady => hreads.again (hsteady parsed hostname port hreads)

/-- The canonical form of an address of a shop is its own. -/
theorem canonicalizeUrl_again_shop :
    canonicalizeUrl Url.plainNetlocs.toUnicode "https://h:80/a?b=c".toList =
      some "https://h:80/a?b=c".toList := by
  have hcanon : canonicalizeUrl Url.plainNetlocs.toUnicode "HTTPS://H:80/x/../a?b=c#d".toList =
      some "https://h:80/a?b=c".toList := by decide
  refine (canonicalizeUrl_again_iff Url.plainNetlocs _ _ hcanon).mpr ?_
  intro parsed hostname port h
  have hsplit : Url.urlsplit Url.plainNetlocs.toUnicode
      (strip "HTTPS://H:80/x/../a?b=c#d".toList) =
        some ⟨"https".toList, "H:80".toList⟩ := by decide
  have hhost : Url.hostname Url.plainNetlocs.toUnicode "H:80".toList = some "h".toList := by decide
  have hpairs : keptPairs Url.plainNetlocs.toUnicode
      (Url.query (strip "HTTPS://H:80/x/../a?b=c#d".toList)) ≠ [] := by decide
  obtain rfl := Option.some.inj (hsplit.symm.trans h.split)
  obtain rfl := Option.some.inj (hhost.symm.trans h.hostname)
  refine ⟨?_, fun _ => ⟨by decide, by decide⟩, fun hnone => absurd hnone hpairs,
    fun hnone => absurd hnone hpairs⟩
  rintro ⟨hscheme, -⟩
  exact absurd hscheme (by decide)

/-- The port 443 of an `http` URL is kept at first and dropped from the canonical URL. -/
theorem default_port_dropped : ¬∀ url canon,
    canonicalizeUrl Url.plainNetlocs.toUnicode url = some canon →
    canonicalizeUrl Url.plainNetlocs.toUnicode canon = some canon := by
  intro hall
  have hfirst : canonicalizeUrl Url.plainNetlocs.toUnicode "http://h:443/".toList =
      some "https://h:443/".toList := by decide
  have hsecond : canonicalizeUrl Url.plainNetlocs.toUnicode "https://h:443/".toList =
      some "https://h/".toList := by decide
  have hsame := hall _ _ hfirst
  rw [hsecond] at hsame
  exact absurd hsame (by decide)

end SeoAgent.Normalization
