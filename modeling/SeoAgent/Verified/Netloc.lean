import SeoAgent.Verified.Url

/-!
# The netlocs of URLs

What `urlsplit` asks of a netloc: brackets hold an address, and no character expands to one
that would split the netloc in another place. The tables of Unicode and the reader of addresses
are given, with what is documented of them.

## Main results

* `hostPort_split` — a host comes from between brackets, or has neither a colon nor an opening
  bracket.
* `lower_lower`, `lower_part` — lower case stays lower case, in all parts of a text.
* `bracketedHost_lower` — an address stays one in lower case.
-/

namespace SeoAgent.Verified.Url

/-- A hexadecimal digit in either case. -/
def isHex (c : Char) : Bool :=
  c.isDigit || ('a'.toNat ≤ c.toNat && c.toNat ≤ 'f'.toNat) ||
    ('A'.toNat ≤ c.toNat && c.toNat ≤ 'F'.toNat)

/-- `_check_bracketed_host`. -/
def bracketedHost (ipv6 : List Char → Bool) : List Char → Bool
  | 'v' :: rest =>
      !(rest.takeWhile isHex).isEmpty &&
        match rest.dropWhile isHex with
        | '.' :: _ :: _ => true
        | _ => false
  | host => ipv6 host

/-- Nothing but a port follows a bracket. -/
def isPortPart : List Char → Bool
  | [] => true
  | c :: _ => c == ':'

/-- `_check_bracketed_netloc`. -/
def bracketedNetloc (ipv6 : List Char → Bool) (netloc : List Char) : Bool :=
  (match (hostinfo netloc).dropWhile (· ≠ '[') with
    | _ :: bracketed =>
        ((hostinfo netloc).takeWhile (· ≠ '[')).isEmpty &&
          isPortPart ((bracketed.dropWhile (· ≠ ']')).drop 1)
    | [] => true) &&
  bracketedHost ipv6 (hostPort netloc).1

/-- What `urlsplit` asks of the brackets of a netloc. -/
def takesBrackets (ipv6 : List Char → Bool) (netloc : List Char) : Bool :=
  (netloc.contains '[' == netloc.contains ']') &&
    (!netloc.contains '[' || bracketedNetloc ipv6 netloc)

/-- The characters `_checknetloc` takes out, since they are in the netloc already. -/
def isSeparator (c : Char) : Bool := c == '@' || c == ':' || c == '#' || c == '?'

/-- The characters that may not come out of an expansion. -/
def isDelimiter (c : Char) : Bool := isSeparator c || c == '/'

/-- `_checknetloc` refuses the netloc. -/
def expands (nfkc : List Char → List Char) (netloc : List Char) : Bool :=
  let text := netloc.filter (!isSeparator ·)
  !netloc.all (fun c => c.toNat < 128) && nfkc text != text && (nfkc text).any isDelimiter

/-- The tables of Unicode with normal form KC, and the addresses of IP version 6. -/
structure NetlocTable extends CaseTable where
  nfkc : List Char → List Char
  ipv6 : List Char → Bool
  /-- What is in lower case stays as it is. -/
  lower_fixed : ∀ {s : List Char} {c : Char}, c ∈ lower s → lower [c] = [c]
  lower_self : ∀ {s : List Char}, (∀ c ∈ s, lower [c] = [c]) → lower s = s
  /-- Lower case neither makes nor loses ASCII characters that are no letters. -/
  lower_mem : ∀ {s : List Char} {c : Char}, c.toNat < 128 → c.isAlpha = false →
    (c ∈ lower s ↔ c ∈ s)
  lower_ne_nil : ∀ {s : List Char}, s ≠ [] → lower s ≠ []
  /-- Delimiters come from single characters, which are no ASCII and which lower case does not
  make. -/
  nfkc_mem : ∀ {s : List Char} {c : Char}, isDelimiter c = true →
    (c ∈ nfkc s ↔ ∃ d ∈ s, c ∈ nfkc [d])
  nfkc_ascii : ∀ {c : Char}, c.toNat < 128 → nfkc [c] = [c]
  nfkc_lower : ∀ {s : List Char} {c d : Char}, isDelimiter c = true → d ∈ lower s →
    c ∈ nfkc [d] → d ∈ s
  /-- An address has a colon and begins with a digit or with one, and its letters may be in lower
  case. -/
  ipv6_colon : ∀ {host : List Char}, ipv6 host = true → ':' ∈ host
  ipv6_head : ∀ {host : List Char}, ipv6 host = true →
    ∃ c rest, host = c :: rest ∧ (isHex c = true ∨ c = ':')
  ipv6_lower : ∀ {host : List Char}, ipv6 host = true →
    ipv6 (lower (lower (host.takeWhile (· ≠ '%')) ++ host.dropWhile (· ≠ '%'))) = true
  /-- What `urlsplit` asks of a netloc, and that it asks no more of one without a user. -/
  allowed_brackets : ∀ {netloc : List Char}, allowed netloc = true →
    takesBrackets ipv6 netloc = true
  allowed_expands : ∀ {netloc : List Char}, allowed netloc = true → expands nfkc netloc = false
  allowed_of : ∀ {netloc : List Char}, '@' ∉ netloc → takesBrackets ipv6 netloc = true →
    expands nfkc netloc = false → allowed netloc = true

/-! ## Hosts -/

section Hosts
variable {netloc : List Char} {c : Char}

theorem not_mem_hostinfo : '@' ∉ hostinfo netloc := fun h => by
  have hne := List.mem_takeWhile_imp (p := (· ≠ '@')) (List.mem_reverse.mp h)
  revert hne
  decide

theorem mem_of_mem_hostinfo (h : c ∈ hostinfo netloc) : c ∈ netloc :=
  List.mem_reverse.mp (mem_of_mem_takeWhile (List.mem_reverse.mp h))

theorem hostinfo_self (h : '@' ∉ netloc) : hostinfo netloc = netloc := by
  have hall : netloc.reverse.takeWhile (· ≠ '@') = netloc.reverse :=
    List.takeWhile_eq_self_iff.mpr fun c hc =>
      decide_eq_true fun heq => h (heq ▸ List.mem_reverse.mp hc)
  rw [hostinfo, hall, List.reverse_reverse]

/-- A host comes from between brackets, or has neither a colon nor an opening bracket. -/
theorem hostPort_split (netloc : List Char) :
    '@' ∉ (hostPort netloc).1 ∧
      (('[' ∈ netloc ∧ ']' ∉ (hostPort netloc).1) ∨
        (':' ∉ (hostPort netloc).1 ∧ '[' ∉ (hostPort netloc).1)) := by
  unfold hostPort
  cases hdrop : (hostinfo netloc).dropWhile (· ≠ '[') with
  | cons d bracketed =>
      have hmem : ∀ {c : Char}, c ∈ d :: bracketed → c ∈ hostinfo netloc := fun hc =>
        mem_of_mem_dropWhile (hdrop ▸ hc)
      have hd := List.head?_dropWhile_not (· ≠ '[') (hostinfo netloc)
      rw [hdrop] at hd
      obtain rfl : d = '[' := by simpa using hd
      refine ⟨fun hc => not_mem_hostinfo (hmem (List.mem_cons_of_mem _ (mem_of_mem_takeWhile hc))),
        .inl ⟨mem_of_mem_hostinfo (hmem List.mem_cons_self), fun hc => ?_⟩⟩
      have hne := List.mem_takeWhile_imp (p := (· ≠ ']')) hc
      revert hne
      decide
  | nil =>
      refine ⟨fun hc => not_mem_hostinfo (mem_of_mem_takeWhile hc), .inr ⟨fun hc => ?_,
        fun hc => ?_⟩⟩
      · have hne := List.mem_takeWhile_imp (p := (· ≠ ':')) hc
        revert hne
        decide
      · have hall := List.dropWhile_eq_nil_iff.mp hdrop _ (mem_of_mem_takeWhile hc)
        revert hall
        decide

end Hosts

/-- A netloc that is an address in brackets. -/
theorem bracketedNetloc_open {ipv6 : List Char → Bool} {bracketed : List Char}
    (h : '@' ∉ bracketed) : bracketedNetloc ipv6 ('[' :: bracketed) =
      (isPortPart ((bracketed.dropWhile (· ≠ ']')).drop 1) &&
        bracketedHost ipv6 (bracketed.takeWhile (· ≠ ']'))) := by
  have huser : '@' ∉ '[' :: bracketed := by
    rw [List.mem_cons, not_or]
    exact ⟨by decide, h⟩
  have hdrop : ('[' :: bracketed).dropWhile (· ≠ '[') = '[' :: bracketed :=
    List.dropWhile_cons_of_neg (by decide)
  have htake : ('[' :: bracketed).takeWhile (· ≠ '[') = [] :=
    List.takeWhile_cons_of_neg (by decide)
  unfold bracketedNetloc hostPort
  rw [hostinfo_self huser, hdrop]
  dsimp only
  rw [htake, List.isEmpty_nil, Bool.true_and]

/-- Nothing stands before the bracket. -/
theorem bracketedNetloc_front {ipv6 : List Char → Bool} {netloc : List Char}
    (huser : '@' ∉ netloc) (hopen : '[' ∈ netloc) (h : bracketedNetloc ipv6 netloc = true) :
    ∃ bracketed, netloc = '[' :: bracketed := by
  have hfirst := (Bool.and_eq_true_iff.mp h).1
  rw [hostinfo_self huser] at hfirst
  cases netloc with
  | nil => cases hopen
  | cons c rest =>
      by_cases hc : c = '['
      · exact ⟨rest, by rw [hc]⟩
      · have hpos : decide (c ≠ '[') = true := decide_eq_true hc
        have hdrop : (c :: rest).dropWhile (· ≠ '[') = rest.dropWhile (· ≠ '[') :=
          List.dropWhile_cons_of_pos hpos
        have htake : (c :: rest).takeWhile (· ≠ '[') = c :: rest.takeWhile (· ≠ '[') :=
          List.takeWhile_cons_of_pos hpos
        rw [hdrop, htake] at hfirst
        split at hfirst
        · cases hfirst
        · next hnone =>
            have hin : '[' ∈ rest := (List.mem_cons.mp hopen).resolve_left (Ne.symm hc)
            exact absurd rfl (of_decide_eq_true (List.dropWhile_eq_nil_iff.mp hnone _ hin))

/-! ## Lower case -/

namespace NetlocTable
variable (U : NetlocTable) {s host : List Char} {c : Char}

theorem lower_lower (s : List Char) : U.lower (U.lower s) = U.lower s :=
  U.lower_self fun _ hc => U.lower_fixed hc

/-- The host of a netloc in lower case, zone included. -/
def lowerHost (host : List Char) : List Char :=
  U.lower (U.lower (host.takeWhile (· ≠ '%')) ++ host.dropWhile (· ≠ '%'))

/-- ASCII characters of a host that are no letters. -/
theorem mem_hostText (hc : c.toNat < 128) (halpha : c.isAlpha = false) :
    c ∈ U.lower (host.takeWhile (· ≠ '%')) ++ host.dropWhile (· ≠ '%') ↔ c ∈ host := by
  rw [List.mem_append, U.lower_mem hc halpha, ← List.mem_append, List.takeWhile_append_dropWhile]

theorem mem_lowerHost (hc : c.toNat < 128) (halpha : c.isAlpha = false) :
    c ∈ U.lowerHost host ↔ c ∈ host := by
  rw [lowerHost, U.lower_mem hc halpha, U.mem_hostText hc halpha]

/-- A host in lower case is the host of its own text. -/
theorem lowerHost_self (h : ∀ c ∈ s, U.lower [c] = [c]) : U.lowerHost s = s := by
  have hfirst : U.lower (s.takeWhile (· ≠ '%')) = s.takeWhile (· ≠ '%') :=
    U.lower_self fun c hc => h c (mem_of_mem_takeWhile hc)
  rw [lowerHost, hfirst, List.takeWhile_append_dropWhile, U.lower_self h]

theorem isHex_toLower (h : isHex c = true) : isHex c.toLower = true := by
  rcases toLower_cases c with hsame | ⟨hA, hZ, hlower⟩
  · rwa [hsame]
  · have ha : 'a'.toNat = 97 := rfl
    have hf : 'f'.toNat = 102 := rfl
    have hF : 'F'.toNat = 70 := rfl
    have hval : c.toNat = c.val.toNat := rfl
    have h9 : '9'.val.toNat = 57 := rfl
    simp only [isHex, Char.isDigit, Bool.or_eq_true, Bool.and_eq_true, decide_eq_true_eq,
      UInt32.le_iff_toNat_le, ge_iff_le] at h ⊢
    exact .inl (.inr (by omega))

theorem isHex_ascii (h : isHex c = true) : c.toNat < 128 := by
  have hf : 'f'.toNat = 102 := rfl
  have hF : 'F'.toNat = 70 := rfl
  have hval : c.toNat = c.val.toNat := rfl
  have h9 : '9'.val.toNat = 57 := rfl
  simp only [isHex, Char.isDigit, Bool.or_eq_true, Bool.and_eq_true, decide_eq_true_eq,
    UInt32.le_iff_toNat_le, ge_iff_le] at h
  omega

/-- ASCII text at the start of a host is put in lower case letter by letter. -/
theorem lowerHost_append {front : List Char} (hascii : ∀ c ∈ front, c.toNat < 128 ∧ c ≠ '%')
    (rest : List Char) :
    ∃ rest', U.lowerHost (front ++ rest) = (front.map Char.toLower).map Char.toLower ++ rest' := by
  have hplain : ∀ c ∈ front, decide (c ≠ '%') = true := fun c hc => decide_eq_true (hascii c hc).2
  have hall : front.all (fun c => c.toNat < 128) = true :=
    List.all_eq_true.mpr fun c hc => decide_eq_true (hascii c hc).1
  have hall' : (front.map Char.toLower).all (fun c => c.toNat < 128) = true := by
    rw [List.all_eq_true]
    intro c hc
    obtain ⟨d, hd, rfl⟩ := List.mem_map.mp hc
    have hlt := (hascii d hd).1
    rw [decide_eq_true_eq]
    rcases toLower_cases d with hsame | ⟨-, hZ, hlower⟩
    · rwa [hsame]
    · omega
  obtain ⟨middle, hmiddle, -⟩ := U.lower_ascii (rest.takeWhile (· ≠ '%')) hall
  obtain ⟨rest', hrest, -⟩ := U.lower_ascii (middle ++ rest.dropWhile (· ≠ '%')) hall'
  refine ⟨rest', ?_⟩
  rw [lowerHost, List.takeWhile_append_of_pos hplain, List.dropWhile_append_of_pos hplain, hmiddle,
    List.append_assoc, hrest]

/-- An address in brackets stays one in lower case, when it has a colon. -/
theorem bracketedHost_lower (h : bracketedHost U.ipv6 host = true) (hcolon : ':' ∈ host) :
    bracketedHost U.ipv6 (U.lowerHost host) = true := by
  have hcolon' : ':' ∈ U.lowerHost host := (U.mem_lowerHost (by decide) (by decide)).mpr hcolon
  unfold bracketedHost at h
  split at h
  · next rest =>
      obtain ⟨hdigits, hversion⟩ := Bool.and_eq_true_iff.mp h
      set digits := rest.takeWhile isHex with hdigitsDef
      have hhex : ∀ c ∈ digits, isHex c = true := fun c hc => List.mem_takeWhile_imp hc
      split at hversion
      · next d tail hdrop =>
          -- The version and its dot stay, whatever follows them.
          have hrest : rest = digits ++ '.' :: d :: tail := by
            rw [← hdrop, List.takeWhile_append_dropWhile]
          have hfront : ∀ c ∈ 'v' :: (digits ++ ['.']), c.toNat < 128 ∧ c ≠ '%' := by
            intro c hc
            rcases List.mem_cons.mp hc with rfl | hc
            · exact ⟨by decide, by decide⟩
            · rcases List.mem_append.mp hc with hc | hc
              · refine ⟨isHex_ascii (hhex c hc), ?_⟩
                rintro rfl
                cases hhex _ hc
              · rw [List.mem_singleton.mp hc]
                exact ⟨by decide, by decide⟩
          obtain ⟨tail', htail⟩ := U.lowerHost_append hfront (d :: tail)
          have hsplit : 'v' :: rest = 'v' :: (digits ++ ['.']) ++ d :: tail := by
            rw [hrest]
            simp
          rw [hsplit, htail] at hcolon' ⊢
          set digits' := (digits.map Char.toLower).map Char.toLower with hdigitsDef'
          have hhex' : ∀ c ∈ digits', isHex c = true := by
            intro c hc
            rw [hdigitsDef', List.map_map] at hc
            obtain ⟨e, he, rfl⟩ := List.mem_map.mp hc
            exact isHex_toLower (isHex_toLower (hhex e he))
          have htext : (('v' :: (digits ++ ['.'])).map Char.toLower).map Char.toLower ++ tail' =
              'v' :: (digits' ++ '.' :: tail') := by
            rw [hdigitsDef']
            simp only [List.map_cons, List.map_append, List.map_nil, List.cons_append,
              List.append_assoc, List.nil_append]
            rfl
          rw [htext] at hcolon' ⊢
          have hne : digits'.isEmpty = false := by
            rw [hdigitsDef', List.isEmpty_map, List.isEmpty_map]
            exact (Bool.not_eq_true' _).mp hdigits
          cases tail' with
          | nil =>
              rcases List.mem_cons.mp hcolon' with heq | hmem
              · cases heq
              · rcases List.mem_append.mp hmem with hmem | hmem
                · cases hhex' _ hmem
                · cases List.mem_singleton.mp hmem
          | cons e tail' =>
              have htake : (digits' ++ '.' :: e :: tail').takeWhile isHex = digits' := by
                rw [List.takeWhile_append_of_pos hhex', List.takeWhile_cons_of_neg (by decide),
                  List.append_nil]
              have hdrop' : (digits' ++ '.' :: e :: tail').dropWhile isHex = '.' :: e :: tail' := by
                rw [List.dropWhile_append_of_pos hhex', List.dropWhile_cons_of_neg (by decide)]
              simp only [bracketedHost, htake, hdrop', hne, Bool.not_false, Bool.true_and]
      · cases hversion
  · have hlower := U.ipv6_lower h
    obtain ⟨c, rest, hcons, hc⟩ := U.ipv6_head hlower
    show bracketedHost U.ipv6 (U.lower _) = true
    rw [hcons] at hlower ⊢
    unfold bracketedHost
    split
    · next heq =>
        rw [(List.cons.inj heq).1] at hc
        rcases hc with hc | hc <;> cases hc
    · exact hlower

end NetlocTable

/-! ## Plain netlocs -/

theorem toLower_toLower (c : Char) : c.toLower.toLower = c.toLower := by
  rcases toLower_cases c with hsame | ⟨hA, hZ, hlower⟩
  · rw [hsame, hsame]
  · rcases toLower_cases c.toLower with hagain | ⟨-, hlow, -⟩
    · exact hagain
    · omega

theorem map_toLower_fixed {s : List Char} {c : Char} (h : c ∈ s.map Char.toLower) :
    [c].map Char.toLower = [c] := by
  obtain ⟨d, -, rfl⟩ := List.mem_map.mp h
  rw [List.map_singleton, toLower_toLower]

theorem map_toLower_self {s : List Char} (h : ∀ c ∈ s, [c].map Char.toLower = [c]) :
    s.map Char.toLower = s :=
  (List.map_congr_left fun c hc => (List.cons.inj (h c hc)).1).trans (List.map_id s)

theorem map_toLower_mem {s : List Char} {c : Char} (halpha : c.isAlpha = false) :
    c ∈ s.map Char.toLower ↔ c ∈ s := by
  have hletters : ∀ d : Char, 97 ≤ d.toNat → d.toNat ≤ 122 → d.isAlpha = true := by
    intro d hlow hhigh
    simp only [Char.isAlpha, Char.isUpper, Char.isLower, Bool.or_eq_true, Bool.and_eq_true,
      decide_eq_true_eq, UInt32.le_iff_toNat_le, ge_iff_le]
    exact .inr ⟨hlow, hhigh⟩
  constructor
  · intro h
    obtain ⟨d, hd, hdc⟩ := List.mem_map.mp h
    rcases toLower_cases d with hsame | ⟨hA, hZ, hlower⟩
    · rwa [← hdc, hsame]
    · rw [hdc] at hlower
      rw [hletters c (by omega) (by omega)] at halpha
      cases halpha
  · intro h
    refine List.mem_map.mpr ⟨c, h, ?_⟩
    rcases toLower_cases c with hsame | ⟨hA, hZ, -⟩
    · exact hsame
    · have hupper : c.isAlpha = true := by
        simp only [Char.isAlpha, Char.isUpper, Bool.or_eq_true, decide_eq_true_eq,
          UInt32.le_iff_toNat_le, ge_iff_le]
        exact .inl ⟨hA, hZ⟩
      rw [hupper] at halpha
      cases halpha

theorem isDelimiter_plain {c : Char} (h : isDelimiter c = true) :
    c.toNat < 128 ∧ c.isAlpha = false := by
  simp only [isDelimiter, isSeparator, Bool.or_eq_true, beq_iff_eq] at h
  rcases h with (((rfl | rfl) | rfl) | rfl) | rfl <;> exact ⟨by decide, by decide⟩

/-- A netloc without a user, or one without brackets. -/
def plainAllowed (netloc : List Char) : Bool :=
  takesBrackets (fun _ => false) netloc && (!netloc.contains '@' || !netloc.contains '[')

theorem contains_append_space {netloc ws : List Char} {c : Char}
    (hws : ∀ d ∈ ws, Text.isSpace d = true) (hc : Text.isSpace c = false) :
    (netloc ++ ws).contains c = netloc.contains c := by
  have hnot : ws.contains c = false := by
    rw [Bool.eq_false_iff, ne_eq, List.contains_iff_mem]
    exact fun hmem => by rw [hws c hmem] at hc; cases hc
  rw [List.contains_append, hnot, Bool.or_false]

/-- A netloc with white space after it is refused when it is refused without it. -/
theorem plainAllowed_append {netloc ws : List Char} (hws : ∀ c ∈ ws, Text.isSpace c = true)
    (h : plainAllowed (netloc ++ ws) = true) : plainAllowed netloc = true := by
  unfold plainAllowed takesBrackets at h ⊢
  rw [contains_append_space hws (by decide), contains_append_space hws (by decide),
    contains_append_space hws (by decide)] at h
  cases hopen : netloc.contains '[' with
  | false =>
      rw [hopen] at h
      simpa using h
  | true =>
      rw [hopen] at h
      simp only [Bool.not_true, Bool.or_false, Bool.false_or, Bool.and_eq_true] at h ⊢
      obtain ⟨⟨hclose, hnetloc⟩, huser⟩ := h
      refine ⟨⟨hclose, ?_⟩, huser⟩
      have hnouser : '@' ∉ netloc := by
        rw [Bool.not_eq_true', ← Bool.not_eq_true, List.contains_iff_mem] at huser
        exact huser
      have hnouser' : '@' ∉ netloc ++ ws := by
        rw [List.mem_append, not_or]
        exact ⟨hnouser, fun hmem => by cases hws _ hmem⟩
      have hin := List.contains_iff_mem.mp hopen
      obtain ⟨whole, hwhole⟩ :=
        bracketedNetloc_front hnouser' (List.mem_append_left _ hin) hnetloc
      cases netloc with
      | nil => cases hin
      | cons c bracketed =>
          obtain ⟨rfl, rfl⟩ := List.cons.inj hwhole
          rw [List.mem_cons, not_or] at hnouser
          rw [List.cons_append, List.mem_cons, not_or] at hnouser'
          rw [List.cons_append, bracketedNetloc_open hnouser'.2, Bool.and_eq_true] at hnetloc
          rw [bracketedNetloc_open hnouser.2, Bool.and_eq_true]
          have hclosed : ']' ∈ bracketed := by
            have hmem := List.contains_iff_mem.mp (beq_iff_eq.mp hclose).symm
            exact (List.mem_cons.mp hmem).resolve_left (by decide)
          rcases takeWhile_append_space (s := bracketed) (d := ']') (by decide) hws with
            ⟨htake, hdrop, hne⟩ | ⟨-, -, -, hnone⟩
          · rw [htake, hdrop] at hnetloc
            refine ⟨?_, hnetloc.2⟩
            cases hafter : bracketed.dropWhile (· ≠ ']') with
            | nil => exact absurd hafter hne
            | cons d after =>
                rw [hafter] at hnetloc
                cases after with
                | nil => rfl
                | cons e after => exact hnetloc.1
          · exact absurd rfl (of_decide_eq_true (List.dropWhile_eq_nil_iff.mp hnone _ hclosed))

theorem plainAllowed_expands {netloc : List Char} : expands id netloc = false := by
  unfold expands
  dsimp only
  have hsame : (id (netloc.filter (!isSeparator ·)) != netloc.filter (!isSeparator ·)) = false :=
    bne_eq_false_iff_eq.mpr rfl
  rw [hsame, Bool.and_false, Bool.false_and]

theorem plainAllowed_of {netloc : List Char} (huser : '@' ∉ netloc)
    (h : takesBrackets (fun _ => false) netloc = true) : plainAllowed netloc = true := by
  have hcontains : netloc.contains '@' = false := by
    rw [Bool.eq_false_iff, ne_eq, List.contains_iff_mem]
    exact huser
  rw [plainAllowed, h, hcontains]
  rfl

theorem id_mem {s : List Char} {c : Char} : c ∈ id s ↔ ∃ d ∈ s, c ∈ id [d] := by
  simp

/-- Plain text, in which no netloc has an address of IP version 6. -/
def plainNetlocs : NetlocTable where
  lower := List.map Char.toLower
  allowed := plainAllowed
  lower_nil := ascii.lower_nil
  lower_space := ascii.lower_space
  allowed_append := plainAllowed_append
  lower_ascii := asciiCase.lower_ascii
  nfkc := id
  ipv6 := fun _ => false
  lower_fixed := map_toLower_fixed
  lower_self := map_toLower_self
  lower_mem := fun _ => map_toLower_mem
  lower_ne_nil := fun h hnil => h (List.map_eq_nil_iff.mp hnil)
  nfkc_mem := fun _ => id_mem
  nfkc_ascii := fun _ => rfl
  nfkc_lower := fun hc hd hmem =>
    List.mem_singleton.mp hmem ▸ (map_toLower_mem (isDelimiter_plain hc).2).mp
      (List.mem_singleton.mp hmem ▸ hd)
  ipv6_colon := nofun
  ipv6_head := nofun
  ipv6_lower := nofun
  allowed_brackets := fun h => (Bool.and_eq_true_iff.mp h).1
  allowed_expands := fun _ => plainAllowed_expands
  allowed_of := fun huser h _ => plainAllowed_of huser h

end SeoAgent.Verified.Url
