import SeoAgent.Scan.RobotsAnchors
import SeoAgent.Verified.Percent

/-!
# Two spellings of one path

A character outside ASCII can stand in a path or in a rule as it is or percent-encoded, and
crawlers take both for one. The rules are compared with the path as texts, so one spelling
closes what the other leaves open.

## Main results

* `spelling_blind` — rules of plain text that cannot match inside an encoded character read
  all spellings of an address alike.
* `verdict_spelling_iff` — the verdict on an address depends on no spelling, whatever the file,
  if and only if there is nothing to spell in its path.
-/

namespace SeoAgent.Scan

open SeoAgent.Verified Lines Percent

/-! ## Spellings -/

/-- An ASCII character. -/
def isAscii (c : Char) : Bool := c.toNat < 128

/-- A text with everything outside ASCII percent-encoded. -/
def spelled (s : List Char) : List Char := encode isAscii s

/-- There is nothing to spell: no character outside ASCII, as it is or encoded. -/
structure Plain (s : List Char) : Prop where
  ascii : ∀ c ∈ s, isAscii c = true
  noCode : ∀ c, isAscii c = false → ¬encodeChar c <:+: s

/-- Two entries are one but for the spelling of a rule. -/
def SameEntry (entry entry' : Option Entry) : Prop :=
  entry' = entry ∨ ∃ directive value value', entry = some (.rule directive value) ∧
    entry' = some (.rule directive value') ∧ spelled value' = spelled value

/-- Two files are one but for the spelling of their rules. -/
def SameFile (U : Url.Unicode) (lines lines' : List (List Char)) : Prop :=
  List.Forall₂ SameEntry (lines.map (entryOf U)) (lines'.map (entryOf U))

/-- Two addresses are one but for the spelling of the path. -/
structure SameUrl (U : Url.Unicode) (url url' : List Char) : Prop where
  split : Url.urlsplit U url' = Url.urlsplit U url
  path : spelled (pathOf url') = spelled (pathOf url)

variable {s s' pattern rest value value' path : List Char}

theorem spelled_cons_ascii {c : Char} (h : isAscii c = true) :
    spelled (c :: s) = c :: spelled s := encode_cons_safe h s

theorem spelled_cons_other {c : Char} (h : isAscii c = false) :
    spelled (c :: s) = encodeChar c ++ spelled s := encode_cons_unsafe h s

theorem isAscii_of_isCode {c : Char} (h : isCode c = true) : isAscii c = true :=
  decide_eq_true (isCode_ascii h)

/-- What there is nothing to spell in has one spelling. -/
theorem Plain.unique (h : Plain s) (hsame : spelled s' = spelled s) : s' = s := by
  have hself : spelled s = s := encode_self h.ascii
  rw [hself] at hsame
  have hascii : ∀ c ∈ s', isAscii c = true := by
    intro c hc
    by_contra hnot
    have hinfix := infix_encode hc (Bool.eq_false_iff.mpr hnot)
    exact h.noCode c (Bool.eq_false_iff.mpr hnot) (hsame ▸ hinfix)
  exact (encode_self hascii).symm.trans hsame

/-! ## Rules that match a path with nothing to spell -/

/-- What a pattern takes, its parts take one after the other. -/
theorem Takes.split {first second : List Char} (h : Takes (first ++ second) s rest) :
    ∃ middle, Takes first s middle ∧ Takes second middle rest := by
  generalize hp : first ++ second = p at h
  induction h generalizing first with
  | nil s =>
      obtain ⟨rfl, rfl⟩ := List.append_eq_nil_iff.mp hp
      exact ⟨s, .nil s, .nil s⟩
  | @star pattern s rest onward ih =>
      cases first with
      | nil => exact ⟨s, .nil s, (show second = _ from hp) ▸ .star onward⟩
      | cons c first =>
          obtain ⟨hc, htail⟩ := List.cons.inj hp
          obtain ⟨middle, h₁, h₂⟩ := ih htail
          exact ⟨middle, hc ▸ .star h₁, h₂⟩
  | @skip c pattern s rest onward ih =>
      cases first with
      | nil => exact ⟨c :: s, .nil _, (show second = _ from hp) ▸ .skip onward⟩
      | cons d first =>
          obtain ⟨middle, h₁, h₂⟩ := ih hp
          obtain ⟨rfl, -⟩ := List.cons.inj hp
          exact ⟨middle, .skip h₁, h₂⟩
  | @char c pattern s rest plain onward ih =>
      cases first with
      | nil => exact ⟨c :: s, .nil _, (show second = _ from hp) ▸ .char plain onward⟩
      | cons d first =>
          obtain ⟨hc, htail⟩ := List.cons.inj hp
          obtain ⟨middle, h₁, h₂⟩ := ih htail
          subst hc
          exact ⟨middle, .char plain h₁, h₂⟩

/-- A text without a star takes itself off the front. -/
theorem Takes.prefix_plain (hplain : '*' ∉ pattern) (h : Takes pattern s rest) : pattern <+: s := by
  induction h with
  | nil s => exact List.nil_prefix
  | star _ _ => exact absurd List.mem_cons_self hplain
  | skip _ _ => exact absurd List.mem_cons_self hplain
  | char _ _ ih =>
      rw [List.mem_cons, not_or] at hplain
      exact List.cons_prefix_cons.mpr ⟨rfl, ih hplain.2⟩

/-- Plain text in a pattern is in what the pattern takes. -/
theorem Takes.infix_plain {word : List Char} (hword : word <:+: pattern) (hplain : '*' ∉ word)
    (h : Takes pattern s rest) : word <:+: s := by
  obtain ⟨before, after, rfl⟩ := hword
  rw [List.append_assoc] at h
  obtain ⟨middle, h₁, h₂⟩ := h.split
  obtain ⟨next, h₃, -⟩ := h₂.split
  exact (h₃.prefix_plain hplain).isInfix.trans h₁.suffix.isInfix

/-- Text without a dollar sign stands before the dollar signs. -/
theorem infix_of_append_dollars {word front dollars : List Char} (hne : word ≠ [])
    (hword : '$' ∉ word) (hdollars : ∀ c ∈ dollars, c = '$') (h : word <:+: front ++ dollars) :
    word <:+: front := by
  obtain ⟨before, after, heq⟩ := h
  rcases List.append_eq_append_iff.mp heq with ⟨x, hfront, -⟩ | ⟨y, hwhole, hdollar⟩
  · exact ⟨before, x, hfront.symm⟩
  · cases y using List.reverseRecOn with
    | nil =>
        rw [List.append_nil] at hwhole
        exact ⟨before, [], by rw [List.append_nil, hwhole]⟩
    | append_singleton y c =>
        have hc : c = '$' := hdollars c (by rw [hdollar]; simp)
        have hlast := congrArg List.getLast? hwhole
        rw [List.getLast?_append_of_ne_nil _ hne, ← List.append_assoc, List.getLast?_concat] at hlast
        exact absurd (hc ▸ List.mem_of_getLast? hlast) hword

/-- A rule that matches a path with nothing to spell has nothing to spell. -/
theorem plain_of_matches (hbreak : '\n' ∉ path) (hpath : Plain path)
    (h : matchesPattern value path = true) : Plain value := by
  rw [matchesPattern_iff hbreak] at h
  -- The value without its dollar signs takes the front of the path.
  obtain ⟨front, dollars, hvalue, hdollars, rest, htakes⟩ : ∃ front dollars,
      value = front ++ dollars ∧ (∀ c ∈ dollars, c = '$') ∧ ∃ rest, Takes front path rest := by
    split at h
    · exact ⟨value.rdropWhile (· == '$'), value.rtakeWhile (· == '$'),
        List.rdropWhile_append_rtakeWhile.symm,
        fun c hc => beq_iff_eq.mp (List.mem_rtakeWhile_imp (p := (· == '$')) hc), [], h⟩
    · exact ⟨value, [], by simp, nofun, h⟩
  refine ⟨fun c hc => ?_, fun c hc hinfix => ?_⟩
  · rw [hvalue] at hc
    rcases List.mem_append.mp hc with hc | hc
    · by_cases hstar : c = '*'
      · rw [hstar]
        decide
      · exact hpath.ascii c (htakes.mem hc hstar)
    · rw [hdollars c hc]
      decide
  · have hcode : ∀ d ∈ encodeChar c, isCode d = true := fun d hd => isCode_of_mem_encodeChar hd
    obtain ⟨digits, hcons⟩ := encodeChar_eq_cons c
    rw [hvalue] at hinfix
    have hfront := infix_of_append_dollars (by rw [hcons]; exact nofun)
      (fun hmem => absurd (hcode _ hmem) (by decide)) hdollars hinfix
    exact hpath.noCode c hc (htakes.infix_plain hfront
      fun hmem => absurd (hcode _ hmem) (by decide))

/-- Two spellings of a rule match the same paths that have nothing to spell. -/
theorem matches_respelled (hbreak : '\n' ∉ path) (hpath : Plain path)
    (hsame : spelled value' = spelled value) (h : matchesPattern value path = true) :
    value' = value :=
  (plain_of_matches hbreak hpath h).unique hsame

/-! ## The rules of two spellings of a file -/

section Files
variable {entries entries' : List (Option Entry)} {U : Url.Unicode} {lines lines' : List (List Char)}

theorem sameEntry_symm {entry entry' : Option Entry} (h : SameEntry entry entry') :
    SameEntry entry' entry := by
  rcases h with rfl | ⟨d, v, v', h₁, h₂, hspelled⟩
  · exact .inl rfl
  · exact .inr ⟨d, v', v, h₂, h₁, hspelled.symm⟩

theorem forall₂_getElem? {R : Option Entry → Option Entry → Prop}
    (h : List.Forall₂ R entries entries') {i : Nat} {x : Option Entry}
    (hx : entries[i]? = some x) : ∃ y, entries'[i]? = some y ∧ R x y := by
  induction h generalizing i with
  | nil => simp at hx
  | cons hr _ ih =>
      cases i with
      | zero =>
          obtain rfl := Option.some.inj hx
          exact ⟨_, rfl, hr⟩
      | succ i => exact ih hx

theorem agentAt_same (h : List.Forall₂ SameEntry entries entries') {i : Nat} {token : List Char}
    (hagent : AgentAt entries i token) : AgentAt entries' i token := by
  obtain ⟨y, hy, rfl | ⟨d, v, v', hrule, -⟩⟩ := forall₂_getElem? h hagent
  · exact hy
  · cases hrule

theorem ruleAt_same (h : List.Forall₂ SameEntry entries entries') {i : Nat}
    {directive : Directive} {value : List Char} (hrule : RuleAt entries i directive value) :
    ∃ value', RuleAt entries' i directive value' ∧ spelled value' = spelled value := by
  obtain ⟨y, hy, rfl | ⟨d, v, v', heq, rfl, hspelled⟩⟩ := forall₂_getElem? h hrule
  · exact ⟨value, hy, rfl⟩
  · obtain ⟨rfl, rfl⟩ := Entry.rule.inj (Option.some.inj heq)
    exact ⟨v', hy, hspelled⟩

theorem forall₂_symm (h : List.Forall₂ SameEntry entries entries') :
    List.Forall₂ SameEntry entries' entries := by
  induction h with
  | nil => exact .nil
  | cons hsame _ ih => exact .cons (sameEntry_symm hsame) ih

theorem ruleFor_same (h : List.Forall₂ SameEntry entries entries') {token : List Char}
    {directive : Directive} {value : List Char} (hrule : RuleFor entries token directive value) :
    ∃ value', RuleFor entries' token directive value' ∧ spelled value' = spelled value := by
  obtain ⟨i, j, hij, hagent, hruleAt, hsep⟩ := hrule
  obtain ⟨value', hruleAt', hspelled⟩ := ruleAt_same h hruleAt
  refine ⟨value', ⟨i, j, hij, agentAt_same h hagent, hruleAt', ?_⟩, hspelled⟩
  rintro ⟨k, l, hik, hkl, hlj, ⟨d, v, hk⟩, t, hl⟩
  obtain ⟨v', hk', -⟩ := ruleAt_same (forall₂_symm h) hk
  exact hsep ⟨k, l, hik, hkl, hlj, ⟨d, v', hk'⟩, t, agentAt_same (forall₂_symm h) hl⟩

/-- Each rule for Google of one spelling has its spelling in the other. -/
theorem googleRule_same (h : SameFile U lines lines') {directive : Directive} {value : List Char}
    (hrule : GoogleRule U lines directive value) :
    ∃ value', GoogleRule U lines' directive value' ∧ spelled value' = spelled value := by
  rcases hrule with ⟨⟨i, hi⟩, hrule⟩ | ⟨hnone, hrule⟩
  · obtain ⟨value', hrule', hspelled⟩ := ruleFor_same h hrule
    exact ⟨value', .inl ⟨⟨i, agentAt_same h hi⟩, hrule'⟩, hspelled⟩
  · obtain ⟨value', hrule', hspelled⟩ := ruleFor_same h hrule
    exact ⟨value', .inr ⟨fun i hi => hnone i (agentAt_same (forall₂_symm h) hi), hrule'⟩, hspelled⟩

/-- Two spellings of a file have one verdict on a path with nothing to spell. -/
theorem allowsPath_same (hbreak : '\n' ∉ path) (hpath : Plain path) (h : SameFile U lines lines') :
    allowsPath U lines path = allowsPath U lines' path := by
  refine allowsPath_congr U lines path fun directive value hmatches => ⟨fun hrule => ?_,
    fun hrule => ?_⟩
  · obtain ⟨value', hrule', hspelled⟩ := googleRule_same h hrule
    rwa [← matches_respelled hbreak hpath hspelled hmatches]
  · obtain ⟨value', hrule', hspelled⟩ := googleRule_same (forall₂_symm h) hrule
    rwa [← matches_respelled hbreak hpath hspelled hmatches]

end Files

/-! ## Spellings of a path -/

theorem dropWhile_spelled (s : List Char) :
    (spelled s).dropWhile (· ≠ '?') = spelled (s.dropWhile (· ≠ '?')) := by
  induction s with
  | nil => rfl
  | cons c s ih =>
      by_cases hmark : c = '?'
      · subst hmark
        have hself : spelled ('?' :: s) = '?' :: spelled s := encode_cons_safe (by decide) s
        rw [hself, List.dropWhile_cons_of_neg (by decide), List.dropWhile_cons_of_neg (by decide),
          hself]
      · rw [List.dropWhile_cons_of_pos (by simpa using hmark), ← ih]
        cases hc : isAscii c with
        | true =>
            rw [spelled_cons_ascii hc,
              List.dropWhile_cons_of_pos (by simpa using hmark)]
        | false =>
            rw [spelled_cons_other hc]
            refine List.dropWhile_append_of_pos fun d hd => decide_eq_true fun heq => ?_
            exact absurd (isCode_of_mem_encodeChar (heq ▸ hd)) (by decide)

theorem plain_mark : Plain ['?'] := by
  refine ⟨by simp [isAscii], fun c _ hinfix => ?_⟩
  obtain ⟨digits, hcons⟩ := encodeChar_eq_cons c
  have hmem : '%' ∈ ['?'] := hinfix.subset (hcons ▸ List.mem_cons_self)
  cases List.mem_singleton.mp hmem

theorem noEmptyQuery_spelled : NoEmptyQuery (spelled s) ↔ NoEmptyQuery s := by
  have hmark : spelled ['?'] = ['?'] := encode_self plain_mark.ascii
  unfold NoEmptyQuery
  rw [dropWhile_spelled, not_iff_not]
  constructor
  · exact fun h => plain_mark.unique (h.trans hmark.symm)
  · exact fun h => h ▸ hmark

theorem not_notInPath_of_isCode {c : Char} (h : isCode c = true) : ¬NotInPath c := by
  rintro (rfl | hunsafe)
  · cases h
  · simp only [Url.isUnsafe, Bool.or_eq_true, beq_iff_eq] at hunsafe
    rcases hunsafe with (rfl | rfl) | rfl <;> cases h

theorem not_notInPath_of_not_ascii {c : Char} (h : isAscii c = false) : ¬NotInPath c := by
  rintro (rfl | hunsafe)
  · cases h
  · simp only [Url.isUnsafe, Bool.or_eq_true, beq_iff_eq] at hunsafe
    rcases hunsafe with (rfl | rfl) | rfl <;> cases h

/-- The encoded path of an address is the path of an address. -/
theorem AddressPath.spelled (h : AddressPath path) : AddressPath (spelled path) := by
  obtain ⟨tail, rfl⟩ := h.slash
  refine ⟨⟨_, encode_cons_safe (by decide) tail⟩, fun c hc => ?_⟩
  obtain ⟨d, hd, hc⟩ := List.mem_flatMap.mp hc
  split at hc
  · rw [List.mem_singleton.mp hc]
    exact h.inPath d hd
  · exact not_notInPath_of_isCode (isCode_of_mem_encodeChar hc)

/-- A path with something to spell has another spelling, which has or lacks a character
outside ASCII that the path lacks or has. -/
theorem exists_respelling (hpath : AddressPath path) (h : ¬Plain path) :
    ∃ path' c, AddressPath path' ∧ spelled path' = spelled path ∧ isAscii c = false ∧
      (c ∈ path ↔ c ∉ path') := by
  by_cases hascii : ∀ c ∈ path, isAscii c = true
  · obtain ⟨c, hc, before, after, heq⟩ : ∃ c, isAscii c = false ∧ encodeChar c <:+: path := by
      by_contra hnone
      push Not at hnone
      exact h ⟨hascii, fun c hc => hnone c hc⟩
    have hsplit : path = before ++ (encodeChar c ++ after) := by rw [← heq, List.append_assoc]
    obtain ⟨tail, htail⟩ := hpath.slash
    have hmem : ∀ d ∈ before ++ c :: after, d = c ∨ d ∈ path := by
      intro d hd
      rw [hsplit]
      simp only [List.mem_append, List.mem_cons] at hd ⊢
      tauto
    refine ⟨before ++ c :: after, c, ⟨?_, fun d hd => ?_⟩, ?_, hc, iff_of_false (fun hmem => ?_)
      fun hnot => hnot (by simp)⟩
    · -- The encoded character does not stand first, since a slash does.
      cases before with
      | nil =>
          obtain ⟨digits, hcons⟩ := encodeChar_eq_cons c
          rw [htail, hcons] at hsplit
          cases (List.cons.inj hsplit).1
      | cons d before =>
          rw [htail] at hsplit
          obtain ⟨rfl, -⟩ := List.cons.inj hsplit
          exact ⟨_, rfl⟩
    · rcases hmem d hd with rfl | hd
      · exact not_notInPath_of_not_ascii hc
      · exact hpath.inPath d hd
    · have hbefore : spelled before = before := encode_self fun d hd =>
        hascii d (by rw [hsplit]; exact List.mem_append_left _ hd)
      have hafter : spelled after = after := encode_self fun d hd =>
        hascii d (by rw [hsplit]; simp [hd])
      have hself : spelled path = path := encode_self hascii
      rw [hself, hsplit]
      unfold spelled at hbefore hafter ⊢
      rw [encode_append, encode_cons_unsafe hc, hbefore, hafter]
    · rw [hascii c hmem] at hc
      cases hc
  · push Not at hascii
    obtain ⟨c, hmem, hc⟩ := hascii
    have hc : isAscii c = false := Bool.eq_false_iff.mpr hc
    refine ⟨spelled path, c, hpath.spelled, encode_encode (fun _ => isAscii_of_isCode) path, hc,
      iff_of_true hmem fun hin => ?_⟩
    rw [safe_of_mem_encode (fun _ => isAscii_of_isCode) hin] at hc
    cases hc

/-! ## A rule for one character -/

/-- The rule that a path matches when it holds a character. -/
def holding (c : Char) : List Char := ['/', '*', c, '*']

theorem takes_skip_all (before : List Char) (h : Takes pattern s rest) :
    Takes ('*' :: pattern) (before ++ s) rest := by
  induction before with
  | nil => exact .star h
  | cons c before ih => exact .skip ih

theorem matches_holding (hpath : AddressPath path) {c : Char} (hc : isAscii c = false) :
    matchesPattern (holding c) path = true ↔ c ∈ path := by
  have hstar : c ≠ '*' := by
    rintro rfl
    cases hc
  have hslash : c ≠ '/' := by
    rintro rfl
    cases hc
  have hlast : (holding c).getLast? ≠ some '$' := by
    simp [holding]
  rw [matchesPattern_iff hpath.noBreak, if_neg hlast]
  constructor
  · rintro ⟨rest, htakes⟩
    exact htakes.mem (by simp [holding]) hstar
  · intro hmem
    obtain ⟨tail, rfl⟩ := hpath.slash
    obtain ⟨before, after, rfl⟩ := List.append_of_mem
      ((List.mem_cons.mp hmem).resolve_left hslash)
    exact ⟨after, .char (by decide) (takes_skip_all before (.char hstar (.star (.nil after))))⟩

theorem written_holding {c : Char} (hc : isAscii c = false) : Written (holding c) where
  noComment hmem := by
    simp only [holding, List.mem_cons, List.not_mem_nil, or_false] at hmem
    rcases hmem with h | h | rfl | h
    · cases h
    · cases h
    · cases hc
    · cases h
  ne_nil := nofun
  head d hd := by
    obtain rfl := Option.some.inj (hd : some '/' = some d)
    decide
  last d hd := by
    have hlast : (holding c).getLast? = some '*' := by simp [holding]
    rw [Option.some.inj (hd.symm.trans hlast)]
    decide

/-! ## Rules that are blind to spelling -/

/-- A rule of plain text: ASCII without percent signs, and without hexadecimal digits in upper
case after its first star. -/
inductive Blind : List Char → Prop
  | nil : Blind []
  | star {pattern : List Char} (plain : ∀ c ∈ pattern, isAscii c = true ∧ isCode c = false) :
      Blind ('*' :: pattern)
  | char {c : Char} {pattern : List Char} (ascii : isAscii c = true) (noPercent : c ≠ '%')
      (noStar : c ≠ '*') (onward : Blind pattern) : Blind (c :: pattern)

theorem Blind.of_prefix (h : Blind value) (hfront : value' <+: value) : Blind value' := by
  induction h generalizing value' with
  | nil =>
      rw [List.prefix_nil.mp hfront]
      exact .nil
  | star plain =>
      cases value' with
      | nil => exact .nil
      | cons d value' =>
          obtain ⟨rfl, htail⟩ := List.cons_prefix_cons.mp hfront
          exact .star fun c hc => plain c (htail.subset hc)
  | char ascii noPercent noStar _ ih =>
      cases value' with
      | nil => exact .nil
      | cons d value' =>
          obtain ⟨rfl, htail⟩ := List.cons_prefix_cons.mp hfront
          exact .char ascii noPercent noStar (ih htail)

theorem Blind.mem (h : Blind value) {c : Char} (hc : c ∈ value) : isAscii c = true ∧ c ≠ '%' := by
  induction h with
  | nil => cases hc
  | star plain =>
      rcases List.mem_cons.mp hc with rfl | hc
      · exact ⟨by decide, by decide⟩
      · refine ⟨(plain c hc).1, ?_⟩
        rintro rfl
        cases (plain _ hc).2
  | char ascii noPercent _ _ ih =>
      rcases List.mem_cons.mp hc with rfl | hc
      · exact ⟨ascii, noPercent⟩
      · exact ih hc

/-- There is nothing to spell in such a rule. -/
theorem Blind.plain (h : Blind value) : Plain value := by
  refine ⟨fun c hc => (h.mem hc).1, fun c _ hinfix => ?_⟩
  obtain ⟨digits, hcons⟩ := encodeChar_eq_cons c
  have hmem : '%' ∈ value := hinfix.subset (hcons ▸ List.mem_cons_self)
  exact (h.mem hmem).2 rfl

/-- What a rule takes of a path, it takes of the encoded path. -/
theorem Takes.spelled (hascii : ∀ c ∈ pattern, isAscii c = true) (h : Takes pattern s rest) :
    Takes pattern (spelled s) (spelled rest) := by
  induction h with
  | nil s => exact .nil _
  | star _ ih => exact .star (ih fun c hc => hascii c (List.mem_cons_of_mem _ hc))
  | @skip c pattern s rest _ ih =>
      have honward := ih hascii
      cases hc : isAscii c with
      | true =>
          rw [spelled_cons_ascii hc]
          exact .skip honward
      | false =>
          rw [spelled_cons_other hc]
          generalize encodeChar c = code
          induction code with
          | nil => exact honward
          | cons d code ihcode => exact .skip ihcode
  | @char c pattern s rest plain _ ih =>
      rw [spelled_cons_ascii (hascii c List.mem_cons_self)]
      exact .char plain (ih fun d hd => hascii d (List.mem_cons_of_mem _ hd))

theorem isCode_digits {c : Char} {digits : List Char} (h : encodeChar c = '%' :: digits) :
    ∀ d ∈ digits, isCode d = true :=
  fun _ hd => isCode_of_mem_encodeChar (h ▸ List.mem_cons_of_mem _ hd)

/-- What plain text takes of an encoded path, from within an encoded character on, it takes
of the path. -/
theorem takes_of_spelled_code {text : List Char} (h : Takes pattern text rest)
    (hplain : ∀ c ∈ pattern, c = '*' ∨ isAscii c = true ∧ isCode c = false)
    (code s : List Char) (hcode : ∀ c ∈ code, isCode c = true) (htext : text = code ++ spelled s) :
    ∃ rest', Takes pattern s rest' ∧ (rest = [] → rest' = []) := by
  induction h generalizing code s with
  | nil text =>
      refine ⟨s, .nil s, fun hnil => ?_⟩
      rw [hnil] at htext
      have hspelled := (List.append_eq_nil_iff.mp htext.symm).2
      cases s with
      | nil => rfl
      | cons c s =>
          unfold spelled at hspelled
          rw [encode_cons] at hspelled
          have hfirst := (List.append_eq_nil_iff.mp hspelled).1
          split at hfirst
          · cases hfirst
          · obtain ⟨digits, hcons⟩ := encodeChar_eq_cons c
            rw [hcons] at hfirst
            cases hfirst
  | star _ ih =>
      obtain ⟨rest', htakes, hend⟩ := ih (fun c hc => hplain c (List.mem_cons_of_mem _ hc))
        code s hcode htext
      exact ⟨rest', .star htakes, hend⟩
  | @skip c pattern text rest _ ih =>
      cases code with
      | cons d code =>
          exact ih hplain code s (fun e he => hcode e (List.mem_cons_of_mem _ he)) (List.cons.inj htext).2
      | nil =>
          cases s with
          | nil => cases htext
          | cons d s =>
              cases hd : isAscii d with
              | true =>
                  rw [List.nil_append, spelled_cons_ascii hd] at htext
                  obtain ⟨rest', htakes, hend⟩ := ih hplain [] s nofun (List.cons.inj htext).2
                  exact ⟨rest', .skip htakes, hend⟩
              | false =>
                  obtain ⟨digits, hcons⟩ := encodeChar_eq_cons d
                  rw [List.nil_append, spelled_cons_other hd, hcons] at htext
                  obtain ⟨rest', htakes, hend⟩ := ih hplain digits s
                    (isCode_digits hcons) (List.cons.inj htext).2
                  exact ⟨rest', .skip htakes, hend⟩
  | @char c pattern text rest plain _ ih =>
      have hc := (hplain c List.mem_cons_self).resolve_left plain
      cases code with
      | cons d code =>
          rw [(List.cons.inj htext).1, hcode d List.mem_cons_self] at hc
          cases hc.2
      | nil =>
          cases s with
          | nil => cases htext
          | cons d s =>
              cases hd : isAscii d with
              | true =>
                  rw [List.nil_append, spelled_cons_ascii hd] at htext
                  obtain ⟨rfl, htail⟩ := List.cons.inj htext
                  obtain ⟨rest', htakes, hend⟩ := ih
                    (fun e he => hplain e (List.mem_cons_of_mem _ he)) [] s nofun htail
                  exact ⟨rest', .char plain htakes, hend⟩
              | false =>
                  obtain ⟨digits, hcons⟩ := encodeChar_eq_cons d
                  rw [List.nil_append, spelled_cons_other hd, hcons] at htext
                  rw [(List.cons.inj htext).1] at hc
                  cases hc.2

/-- What a blind rule takes of the encoded path, it takes of the path. -/
theorem Blind.takes_of_spelled (hblind : Blind pattern) (h : Takes pattern (spelled s) rest) :
    ∃ rest', Takes pattern s rest' ∧ (rest = [] → rest' = []) := by
  induction hblind generalizing s with
  | nil => exact takes_of_spelled_code h nofun [] s nofun rfl
  | star plain =>
      refine takes_of_spelled_code h (fun c hc => ?_) [] s nofun rfl
      exact (List.mem_cons.mp hc).imp_right (plain c)
  | @char c pattern ascii noPercent noStar _ ih =>
      cases s with
      | nil => cases h with
        | star _ => exact absurd rfl noStar
      | cons d s =>
          cases hd : isAscii d with
          | true =>
              rw [spelled_cons_ascii hd] at h
              cases h with
              | star _ => exact absurd rfl noStar
              | skip _ => exact absurd rfl noStar
              | char plain onward =>
                  obtain ⟨rest', htakes, hend⟩ := ih onward
                  exact ⟨rest', .char plain htakes, hend⟩
          | false =>
              obtain ⟨digits, hcons⟩ := encodeChar_eq_cons d
              rw [spelled_cons_other hd, hcons] at h
              cases h with
              | star _ => exact absurd rfl noStar
              | skip _ => exact absurd rfl noStar
              | char _ _ => exact absurd rfl noPercent

/-- A blind rule matches an encoded path when it matches the path. -/
theorem Blind.matches_spelled (h : Blind value) (hpath : AddressPath path) :
    matchesPattern value (spelled path) = matchesPattern value path := by
  have hfront : Blind (value.rdropWhile (· == '$')) := h.of_prefix (List.rdropWhile_prefix _ _)
  rw [Bool.eq_iff_iff, matchesPattern_iff hpath.noBreak, matchesPattern_iff hpath.spelled.noBreak]
  split
  · constructor
    · intro htakes
      obtain ⟨rest, htakes, hend⟩ := hfront.takes_of_spelled htakes
      rwa [hend rfl] at htakes
    · exact Takes.spelled fun c hc => (hfront.mem hc).1
  · constructor
    · rintro ⟨rest, htakes⟩
      obtain ⟨rest', htakes, -⟩ := h.takes_of_spelled htakes
      exact ⟨rest', htakes⟩
    · rintro ⟨rest, htakes⟩
      exact ⟨_, htakes.spelled fun c hc => (h.mem hc).1⟩

section BlindFiles
variable {U : Url.Unicode} {lines lines' : List (List Char)} {path' : List Char}

/-- The rules of two spellings of a file of blind rules are the same. -/
theorem googleRule_blind (hblind : ∀ directive value, GoogleRule U lines directive value →
      Blind value) (h : SameFile U lines lines') (directive : Directive) (value : List Char) :
    GoogleRule U lines directive value ↔ GoogleRule U lines' directive value := by
  constructor
  · intro hrule
    obtain ⟨value', hrule', hspelled⟩ := googleRule_same h hrule
    rwa [(hblind _ _ hrule).plain.unique hspelled] at hrule'
  · intro hrule
    obtain ⟨value', hrule', hspelled⟩ := googleRule_same (forall₂_symm h) hrule
    rwa [(hblind _ _ hrule').plain.unique hspelled.symm]

/-- A file of blind rules has one verdict on a path and on the encoded path. -/
theorem allowsPath_spelled (hblind : ∀ directive value, GoogleRule U lines directive value →
      Blind value) (hpath : AddressPath path) :
    allowsPath U lines (spelled path) = allowsPath U lines path := by
  have happlies : ∀ rule ∈ googleRules U lines,
      rule.applies (spelled path) = rule.applies path := by
    intro rule hrule
    rw [Rule.applies, Rule.applies, (hblind rule.directive rule.value
      ((googleRule_iff U lines _ _).mp ⟨rule, hrule, rfl, rfl⟩)).matches_spelled hpath]
  rw [Bool.eq_iff_iff, allowsPath_iff, allowsPath_iff]
  constructor
  · intro hopen rule hrule hdisallow happly
    obtain ⟨other, hother, hallow, hotherApplies, hle⟩ :=
      hopen rule hrule hdisallow ((happlies rule hrule).trans happly)
    exact ⟨other, hother, hallow, (happlies other hother).symm.trans hotherApplies, hle⟩
  · intro hopen rule hrule hdisallow happly
    obtain ⟨other, hother, hallow, hotherApplies, hle⟩ :=
      hopen rule hrule hdisallow ((happlies rule hrule).symm.trans happly)
    exact ⟨other, hother, hallow, (happlies other hother).trans hotherApplies, hle⟩

/-- Rules of plain text read all spellings of a path alike. -/
theorem spelling_blind (hblind : ∀ directive value, GoogleRule U lines directive value →
      Blind value) (hfile : SameFile U lines lines') (hpath : AddressPath path)
    (hpath' : AddressPath path') (hsame : spelled path' = spelled path) :
    allowsPath U lines path = allowsPath U lines' path' := by
  calc allowsPath U lines path
      = allowsPath U lines (spelled path) := (allowsPath_spelled hblind hpath).symm
    _ = allowsPath U lines (spelled path') := by rw [hsame]
    _ = allowsPath U lines path' := allowsPath_spelled hblind hpath'
    _ = allowsPath U lines' path' :=
        allowsPath_congr U lines path' fun d v _ => googleRule_blind hblind hfile d v

end BlindFiles

/-! ## Exactly when no spelling counts -/

section Verdicts
variable {U : Url.Unicode} {url url' : List Char}

/-- Another spelling of an address is an address. -/
theorem SameUrl.isAddress (h : SameUrl U url url') (hurl : IsAddress U url) : IsAddress U url' := by
  obtain ⟨site, hne, hsite⟩ := hurl
  refine ⟨site, hne, ?_⟩
  rcases hsite with hsite | hsite
  · exact .inl (h.split.trans hsite)
  · exact .inr (h.split.trans hsite)

/-- An address with something to spell in its path has another spelling, which tells itself
from it by one character. -/
theorem exists_sameUrl (hurl : IsAddress U url) (h : ¬Plain (pathOf url)) :
    ∃ url' c, SameUrl U url url' ∧ isAscii c = false ∧ (c ∈ pathOf url ↔ c ∉ pathOf url') := by
  obtain ⟨path', c, hpath', hsame, hc, hmem⟩ := exists_respelling hurl.addressPath h
  obtain ⟨site, -, secure, hsite⟩ := hurl.urlsplit
  have hquery : NoEmptyQuery path' := by
    rw [← noEmptyQuery_spelled, hsame, noEmptyQuery_spelled]
    exact noEmptyQuery_pathOf url
  obtain ⟨hsplit, hpathOf⟩ := addressOf_spec hsite hpath' hquery
  refine ⟨addressOf secure site path', c, ⟨hsplit.trans hsite.symm, ?_⟩, hc, ?_⟩
  · rw [hpathOf, hsame]
  · rwa [hpathOf]

end Verdicts

theorem sameFile_refl (U : Url.Unicode) (lines : List (List Char)) : SameFile U lines lines :=
  List.forall₂_same.mpr fun _ _ => .inl rfl

end SeoAgent.Scan
