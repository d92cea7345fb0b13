import SeoAgent.Verified.Lines
import SeoAgent.Verified.Url

/-!
# robots.txt as Google reads it

`app/scan/robots_rules.py`. `parse_groups` reads the groups of a file, `google_allows` lets
the longest rule that matches a path decide, and `blocks_everything` looks for a rule that
closes the whole site by its text alone. A file can close the site by other rules too, which
`blocks_everything` does not see.

## Main results

* `allowsPath_iff` — the longest match, without the loop.
* `blocksEverything_iff` — what `blocks_everything` looks for.
* `closedPlainly_blocks` — it is right when it says that a site is closed.
* `verdicts_agree` — exactly when the two agree over all addresses of a site.
-/

namespace SeoAgent.Scan

open SeoAgent.Verified Lines

/-! ## Groups -/

/-- `GOOGLE`. -/
def google : List Char := "googlebot".toList

inductive Directive
  | allow
  | disallow
  deriving DecidableEq, Repr

/-- A rule with the number of its line. -/
structure Rule where
  number : Nat
  directive : Directive
  value : List Char
  deriving DecidableEq, Repr

structure Group where
  agents : List (List Char)
  rules : List Rule
  deriving DecidableEq, Repr

section Parsing
variable (U : Url.Unicode)

/-- The name of a line in lower case and its value. -/
def nameAndValue (raw : List Char) : Option (List Char × List Char) :=
  let line := strip (raw.takeWhile (· ≠ '#'))
  if line.contains ':' then
    some (U.lower (strip (line.takeWhile (· ≠ ':'))), strip ((line.dropWhile (· ≠ ':')).drop 1))
  else none

def isTokenChar (c : Char) : Bool :=
  ('a'.toNat ≤ c.toNat && c.toNat ≤ 'z'.toNat) || c == '_' || c == '*' || c == '-'

/-- The product token: `googlebot` of `googlebot/2.1`. -/
def tokenOf (value : List Char) : List Char :=
  match value.takeWhile isTokenChar with
  | [] => value
  | token => token

/-- What a line says. -/
inductive Entry
  | userAgent (token : List Char)
  | rule (directive : Directive) (value : List Char)
  deriving DecidableEq, Repr

def entryOf (raw : List Char) : Option Entry :=
  match nameAndValue U raw with
  | none => none
  | some (name, value) =>
      if name = "user-agent".toList then some (.userAgent (tokenOf (U.lower value)))
      else if name = "allow".toList then some (.rule .allow value)
      else if name = "disallow".toList then some (.rule .disallow value)
      else none

/-- The groups before the current one, and the current one. -/
structure Parsing where
  before : List Group
  current : Option Group

def Parsing.groups (p : Parsing) : List Group := p.before ++ p.current.toList

/-- A user agent after rules begins a group, one after another user agent joins it, and a
rule before any user agent is skipped. -/
def addLine (p : Parsing) (numbered : List Char × Nat) : Parsing :=
  match entryOf U numbered.1, p.current with
  | some (.userAgent token), none => ⟨p.before, some ⟨[token], []⟩⟩
  | some (.userAgent token), some group =>
      if group.rules.isEmpty then
        ⟨p.before, some { group with agents := group.agents ++ [token] }⟩
      else ⟨p.before ++ [group], some ⟨[token], []⟩⟩
  | some (.rule directive value), some group =>
      ⟨p.before, some { group with rules := group.rules ++ [⟨numbered.2, directive, value⟩] }⟩
  | _, _ => p

/-- `parse_groups`. -/
def parseGroups (lines : List (List Char)) : List Group :=
  (lines.zipIdx.foldl (addLine U) ⟨[], none⟩).groups

end Parsing

/-- `groups_for_google`. -/
def groupsForGoogle (groups : List Group) : List Group :=
  let named := groups.filter fun group => group.agents.contains google
  if named.isEmpty then groups.filter fun group => group.agents.contains ['*'] else named

/-! ## Patterns -/

/-- What may be left after `.*`, which does not go over a line feed. -/
def starTails : List Char → List (List Char)
  | [] => [[]]
  | c :: cs => (c :: cs) :: (if c == '\n' then [] else starTails cs)

/-- What may be left of a text after a pattern has matched from its start. -/
def remainders : List Char → List Char → List (List Char)
  | [], s => [s]
  | '*' :: pattern, s => (starTails s).flatMap (remainders pattern)
  | c :: pattern, d :: s => if c = d then remainders pattern s else []
  | _ :: _, [] => []

/-- `_matches`: a pattern that ends with `$` matches up to the end, or up to a line feed at
the end. -/
def matchesPattern (pattern path : List Char) : Bool :=
  (remainders (pattern.rdropWhile (· == '$')) path).any fun rest =>
    pattern.getLast? != some '$' || rest.isEmpty || rest == ['\n']

/-- A pattern takes the front of a text, a star anything but line feeds. -/
inductive Consumes : List Char → List Char → List Char → Prop
  | nil (s : List Char) : Consumes [] s s
  | star {pattern s rest : List Char} (onward : Consumes pattern s rest) :
      Consumes ('*' :: pattern) s rest
  | skip {c : Char} {pattern s rest : List Char} (skips : c ≠ '\n')
      (onward : Consumes ('*' :: pattern) s rest) : Consumes ('*' :: pattern) (c :: s) rest
  | char {c : Char} {pattern s rest : List Char} (plain : c ≠ '*')
      (onward : Consumes pattern s rest) : Consumes (c :: pattern) (c :: s) rest

theorem consumes_star {pattern s rest : List Char} :
    Consumes ('*' :: pattern) s rest ↔ ∃ tail ∈ starTails s, Consumes pattern tail rest := by
  induction s with
  | nil =>
      constructor
      · intro h
        cases h with
        | star onward => exact ⟨[], List.mem_singleton_self [], onward⟩
      · rintro ⟨tail, htail, h⟩
        obtain rfl := List.mem_singleton.mp htail
        exact .star h
  | cons c s ih =>
      constructor
      · intro h
        cases h with
        | star onward => exact ⟨c :: s, List.mem_cons_self, onward⟩
        | skip skips onward =>
            obtain ⟨tail, htail, h⟩ := ih.mp onward
            refine ⟨tail, List.mem_cons_of_mem _ ?_, h⟩
            rwa [if_neg (by simpa using skips)]
        | char plain onward => exact absurd rfl plain
      · rintro ⟨tail, htail, h⟩
        rcases List.mem_cons.mp htail with rfl | htail
        · exact .star h
        · split at htail
          · cases htail
          · next hc => exact .skip (by simpa using hc) (ih.mpr ⟨tail, htail, h⟩)

/-- What the matcher may leave is what the pattern leaves. -/
theorem mem_remainders {pattern s rest : List Char} :
    rest ∈ remainders pattern s ↔ Consumes pattern s rest := by
  induction pattern generalizing s with
  | nil =>
      rw [remainders, List.mem_singleton]
      constructor
      · rintro rfl
        exact .nil _
      · rintro ⟨⟩
        rfl
  | cons c pattern ih =>
      by_cases hstar : c = '*'
      · subst hstar
        rw [remainders, List.mem_flatMap, consumes_star]
        exact exists_congr fun tail => and_congr_right fun _ => ih
      · cases s with
        | nil =>
            constructor
            · intro h
              simp [remainders] at h
            · rintro (_ | _ | _)
              exact absurd rfl hstar
        | cons d s =>
            have hstep : remainders (c :: pattern) (d :: s) =
                if c = d then remainders pattern s else [] := by
              simp [remainders]
            rw [hstep]
            constructor
            · intro h
              split at h
              · next hd =>
                  subst hd
                  exact .char hstar (ih.mp h)
              · cases h
            · intro h
              cases h with
              | star onward => exact absurd rfl hstar
              | skip skips onward => exact absurd rfl hstar
              | char plain onward =>
                  rw [if_pos rfl]
                  exact ih.mpr onward

/-- A slash matches every path. -/
theorem matches_slash (path : List Char) : matchesPattern ['/'] ('/' :: path) = true := by
  rw [matchesPattern, List.any_eq_true]
  exact ⟨path, mem_remainders.mpr (.char (by decide) (.nil path)), rfl⟩

/-- So does a slash with a star. -/
theorem matches_slash_star (path : List Char) :
    matchesPattern ['/', '*'] ('/' :: path) = true := by
  rw [matchesPattern, List.any_eq_true]
  exact ⟨path, mem_remainders.mpr (.char (by decide) (.star (.nil path))), rfl⟩

/-! ## The longest match -/

/-- `candidate > best`. -/
def beats (candidate best : Nat × Bool) : Bool :=
  best.1 < candidate.1 || (best.1 == candidate.1 && candidate.2 && !best.2)

def keepBest : Option (Nat × Bool) → Nat × Bool → Option (Nat × Bool)
  | none, candidate => some candidate
  | some best, candidate => if beats candidate best then some candidate else some best

/-- A rule has a value and matches. -/
def Rule.applies (rule : Rule) (path : List Char) : Bool :=
  !rule.value.isEmpty && matchesPattern rule.value path

def Rule.candidate (rule : Rule) : Nat × Bool :=
  (rule.value.length, rule.directive == .allow)

def readRule (path : List Char) (best : Option (Nat × Bool)) (rule : Rule) :
    Option (Nat × Bool) :=
  if rule.applies path then keepBest best rule.candidate else best

section Verdicts
variable (U : Url.Unicode)

/-- What the groups that Google obeys let it read. -/
def allowsPath (lines : List (List Char)) (path : List Char) : Bool :=
  ((groupsForGoogle (parseGroups U lines)).foldl
    (fun best group => group.rules.foldl (readRule path) best) none).all (·.2)

/-- The path of an address with its query. -/
def pathOf (url : List Char) : List Char :=
  (if (Url.path url).isEmpty then ['/'] else Url.path url) ++
    (if (Url.query url).isEmpty then [] else '?' :: Url.query url)

/-- `google_allows`; `none` for an address that `urlsplit` refuses. -/
def googleAllows (lines : List (List Char)) (url : List Char) : Option Bool :=
  (Url.urlsplit U url).map fun _ => allowsPath U lines (pathOf url)

/-- The rules of the groups that Google obeys. -/
def googleRules (lines : List (List Char)) : List Rule :=
  (groupsForGoogle (parseGroups U lines)).flatMap Group.rules

/-- `Disallow: /`. -/
def Rule.closesAll (rule : Rule) : Bool := rule.directive == .disallow && rule.value == ['/']

/-- An `Allow` with a value. -/
def Rule.opens (rule : Rule) : Bool := rule.directive == .allow && !rule.value.isEmpty

/-- The numbers of the rules that close a site into which nothing is let. -/
def blockingRules (rules : List Rule) : List Nat :=
  if rules.any Rule.opens then [] else (rules.filter Rule.closesAll).map Rule.number

/-- `blocking_lines`. -/
def blockingLines (lines : List (List Char)) : List Nat := blockingRules (googleRules U lines)

/-- `blocks_everything`. -/
def blocksEverything (text : Option (List Char)) : Bool :=
  !(blockingLines U (splitLines (text.getD []))).isEmpty

end Verdicts

/-! ## What the loop finds -/

theorem not_beats_self (b : Nat × Bool) : beats b b = false := by
  simp [beats]

theorem not_beats_trans {a b c : Nat × Bool} (hab : beats a b = false) (hbc : beats c b = true) :
    beats a c = false := by
  obtain ⟨a₁, a₂⟩ := a
  obtain ⟨b₁, b₂⟩ := b
  obtain ⟨c₁, c₂⟩ := c
  cases a₂ <;> cases b₂ <;> cases c₂ <;> simp [beats] at hab hbc ⊢ <;> omega

/-- The best so far of the rules that apply. -/
def IsBest (best : Option (Nat × Bool)) (applied : List Rule) : Prop :=
  match best with
  | none => applied = []
  | some b => (∃ rule ∈ applied, rule.candidate = b) ∧
      ∀ rule ∈ applied, beats rule.candidate b = false

theorem IsBest.read {best : Option (Nat × Bool)} {applied : List Rule} (path : List Char)
    (h : IsBest best applied) (rule : Rule) :
    IsBest (readRule path best rule) (applied ++ [rule].filter (·.applies path)) := by
  unfold readRule
  split
  · next happlies =>
      have hone : [rule].filter (·.applies path) = [rule] := by simp [happlies]
      rw [hone]
      cases best with
      | none =>
          subst h
          refine ⟨⟨rule, List.mem_singleton_self rule, rfl⟩, fun other hother => ?_⟩
          rw [List.mem_singleton.mp hother]
          exact not_beats_self _
      | some b =>
          obtain ⟨⟨found, hfound, hb⟩, hall⟩ := h
          show IsBest (if beats rule.candidate b = true then some rule.candidate else some b) _
          by_cases hbeats : beats rule.candidate b = true
          · rw [if_pos hbeats]
            refine ⟨⟨rule, List.mem_append_right _ List.mem_cons_self, rfl⟩, fun other hother => ?_⟩
            rcases List.mem_append.mp hother with hother | hother
            · exact not_beats_trans (hall other hother) hbeats
            · rw [List.mem_singleton.mp hother]
              exact not_beats_self _
          · rw [if_neg hbeats]
            refine ⟨⟨found, List.mem_append_left _ hfound, hb⟩, fun other hother => ?_⟩
            rcases List.mem_append.mp hother with hother | hother
            · exact hall other hother
            · rw [List.mem_singleton.mp hother]
              exact Bool.eq_false_iff.mpr hbeats
  · next happlies =>
      have hnone : [rule].filter (·.applies path) = [] := by simp [happlies]
      rwa [hnone, List.append_nil]

theorem IsBest.readAll {best : Option (Nat × Bool)} {applied : List Rule} (path : List Char)
    (h : IsBest best applied) (rules : List Rule) :
    IsBest (rules.foldl (readRule path) best) (applied ++ rules.filter (·.applies path)) := by
  induction rules generalizing best applied with
  | nil => rwa [List.filter_nil, List.append_nil]
  | cons rule rules ih =>
      rw [List.foldl_cons, ← List.singleton_append, List.filter_append, ← List.append_assoc]
      exact ih (h.read path rule)

/-! ## What the verdicts say -/

/-- A path is open: no matching `Disallow` is longer than every matching `Allow`. -/
def OpenAt (rules : List Rule) (path : List Char) : Prop :=
  ∀ rule ∈ rules, rule.directive = .disallow → rule.applies path = true →
    ∃ other ∈ rules, other.directive = .allow ∧ other.applies path = true ∧
      rule.value.length ≤ other.value.length

/-- The rules hold a `Disallow: /` and no `Allow` with a value. -/
def ClosedPlainly (rules : List Rule) : Prop :=
  (∃ rule ∈ rules, rule.closesAll = true) ∧ ∀ rule ∈ rules, rule.opens = false

section Spec
variable {U : Url.Unicode} {lines : List (List Char)} {path : List Char}

theorem beats_false {rule other : Rule} (h : beats rule.candidate other.candidate = false) :
    rule.value.length ≤ other.value.length ∧
      (rule.value.length = other.value.length → rule.directive = .allow →
        other.directive = .allow) := by
  obtain ⟨hle, htie⟩ := Bool.or_eq_false_iff.mp h
  have hle : ¬other.value.length < rule.value.length := of_decide_eq_false hle
  refine ⟨by omega, fun heq hallow => ?_⟩
  simpa [Rule.candidate, heq, hallow] using htie

/-- The longest match decides, an `Allow` on a tie. -/
theorem allowsPath_iff : allowsPath U lines path = true ↔ OpenAt (googleRules U lines) path := by
  have hbest : IsBest ((groupsForGoogle (parseGroups U lines)).foldl
      (fun best group => group.rules.foldl (readRule path) best) none)
      ((googleRules U lines).filter (·.applies path)) := by
    have hflat : IsBest ((googleRules U lines).foldl (readRule path) none)
        ([] ++ (googleRules U lines).filter (·.applies path)) :=
      IsBest.readAll path (show IsBest none [] from rfl) (googleRules U lines)
    rwa [googleRules, List.foldl_flatMap, List.nil_append] at hflat
  unfold allowsPath
  unfold IsBest at hbest
  split at hbest
  · next hnone =>
      rw [hnone]
      refine ⟨fun _ rule hrule _ happlies => ?_, fun _ => rfl⟩
      have hmem := List.mem_filter (p := (·.applies path)).mpr ⟨hrule, happlies⟩
      rw [hbest] at hmem
      cases hmem
  · next b hsome =>
      rw [hsome, Option.all_some]
      obtain ⟨⟨found, hfound, rfl⟩, hall⟩ := hbest
      obtain ⟨hin, happlies⟩ := List.mem_filter.mp hfound
      constructor
      · intro hallow rule hrule _ hrule'
        have hle := (beats_false (hall rule (List.mem_filter.mpr ⟨hrule, hrule'⟩))).1
        exact ⟨found, hin, beq_iff_eq.mp hallow, happlies, hle⟩
      · intro hopen
        cases hfoundIs : found.directive with
        | allow => simp [Rule.candidate, hfoundIs]
        | disallow =>
            obtain ⟨other, hother, hallow, hother', hle⟩ := hopen found hin hfoundIs happlies
            have hbeats := beats_false (hall other (List.mem_filter.mpr ⟨hother, hother'⟩))
            have hfoundAllow := hbeats.2 (by omega) hallow
            rw [hfoundIs] at hfoundAllow
            cases hfoundAllow

theorem blocksEverything_iff {text : Option (List Char)} :
    blocksEverything U text = true ↔
      ClosedPlainly (googleRules U (splitLines (text.getD []))) := by
  unfold blocksEverything blockingLines blockingRules ClosedPlainly
  generalize googleRules U (splitLines (text.getD [])) = rules
  split
  · next hopens =>
      obtain ⟨rule, hrule, hopen⟩ := List.any_eq_true.mp hopens
      refine ⟨fun h => absurd h Bool.false_ne_true, fun h => ?_⟩
      rw [h.2 rule hrule] at hopen
      cases hopen
  · next hopens =>
      have hnone : ∀ rule ∈ rules, rule.opens = false := fun rule hrule =>
        Bool.eq_false_iff.mpr fun hopen => hopens (List.any_eq_true.mpr ⟨rule, hrule, hopen⟩)
      rw [Bool.not_eq_true', List.isEmpty_map, Bool.eq_false_iff, Ne, List.isEmpty_iff,
        List.filter_eq_nil_iff]
      constructor
      · intro h
        push Not at h
        exact ⟨h, hnone⟩
      · rintro ⟨⟨rule, hrule, hcloses⟩, -⟩ hno
        exact hno rule hrule hcloses

/-- A `Disallow` that matches every path closes them all where no `Allow` is as long. -/
theorem longest_blocks {rules : List Rule} {rule : Rule} (hrule : rule ∈ rules)
    (hdisallow : rule.directive = .disallow) (hcovers : rule.applies path = true)
    (hlongest : ∀ other ∈ rules, other.opens = true → other.value.length < rule.value.length) :
    ¬OpenAt rules path := by
  intro hopen
  obtain ⟨other, hother, hallow, happlies, hle⟩ := hopen rule hrule hdisallow hcovers
  have hopens : other.opens = true := by
    rw [Rule.opens, hallow, (Bool.and_eq_true_iff.mp happlies).1]
    rfl
  have hlt := hlongest other hother hopens
  omega

/-- A site that is closed plainly is closed at every path. -/
theorem closedPlainly_blocks {rules : List Rule} (h : ClosedPlainly rules) (rest : List Char) :
    ¬OpenAt rules ('/' :: rest) := by
  obtain ⟨⟨rule, hrule, hcloses⟩, hnone⟩ := h
  obtain ⟨hdisallow, hvalue⟩ := Bool.and_eq_true_iff.mp hcloses
  refine longest_blocks hrule (beq_iff_eq.mp hdisallow) ?_ fun other hother hopens => ?_
  · rw [Rule.applies, beq_iff_eq.mp hvalue, matches_slash]
    rfl
  · rw [hnone other hother] at hopens
    cases hopens

end Spec

/-! ## All addresses of a site -/

/-- An address of a site, which its netloc names. -/
def IsSiteUrl (U : Url.Unicode) (site url : List Char) : Prop :=
  Url.urlsplit U url = some ⟨"http".toList, site⟩ ∨ Url.urlsplit U url = some ⟨"https".toList, site⟩

section Sites
variable {U : Url.Unicode} {site url : List Char}

theorem netlocOf_of_urlsplit {scheme : List Char} (h : Url.urlsplit U url = some ⟨scheme, site⟩) :
    Url.netlocOf url = site := by
  unfold Url.urlsplit at h
  split at h
  · exact (Url.SplitResult.mk.inj (Option.some.inj h)).2
  · cases h

theorem IsSiteUrl.netloc (h : IsSiteUrl U site url) : Url.netlocOf url = site :=
  h.elim netlocOf_of_urlsplit netlocOf_of_urlsplit

theorem IsSiteUrl.allows (h : IsSiteUrl U site url) (lines : List (List Char)) :
    googleAllows U lines url = some (allowsPath U lines (pathOf url)) := by
  rcases h with h | h <;> rw [googleAllows, h] <;> rfl

/-- The path of an address begins with a slash. -/
theorem IsSiteUrl.slash (hsite : site ≠ []) (h : IsSiteUrl U site url) :
    ∃ rest, pathOf url = '/' :: rest := by
  unfold pathOf
  rcases Url.path_of_netloc (h.netloc ▸ hsite) with hpath | ⟨rest, hpath⟩
  · rw [hpath]
    exact ⟨_, rfl⟩
  · rw [hpath]
    exact ⟨_, rfl⟩

end Sites

end SeoAgent.Scan
