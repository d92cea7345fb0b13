import SeoAgent.Scan.RobotsRules

/-!
# The verdict of the longest match

What a robots.txt says, without the loops: which rule is for which agent, what a pattern
matches, and which rule decides. A line is read as `parse_groups` reads it; all else is told
by the positions of the lines.

## Main results

* `googleRule_iff` — the groups that Google obeys hold the rules of the lines for Google.
* `allowsPath_iff_reference` — the verdict is the one of these rules, where the matcher is
  right about each of them.
* `allowsPath_congr` — it does not depend on the order of the rules or on how they are split
  over groups.
-/

namespace SeoAgent.Scan

open SeoAgent.Verified Lines

/-! ## Which rule is for which agent -/

section Lines
variable (entries : List (Option Entry))

/-- The line names an agent. -/
def AgentAt (i : Nat) (token : List Char) : Prop :=
  entries[i]? = some (some (.userAgent token))

/-- The line is a rule. -/
def RuleAt (i : Nat) (directive : Directive) (value : List Char) : Prop :=
  entries[i]? = some (some (.rule directive value))

/-- Between two lines there is a user agent that follows a rule, which begins another
group. -/
def Separated (i j : Nat) : Prop :=
  ∃ k l, i < k ∧ k < l ∧ l < j ∧ (∃ directive value, RuleAt entries k directive value) ∧
    ∃ token, AgentAt entries l token

/-- A rule is for an agent: it follows a line with its name, in the same group. -/
def RuleFor (token : List Char) (directive : Directive) (value : List Char) : Prop :=
  ∃ i j, i < j ∧ AgentAt entries i token ∧ RuleAt entries j directive value ∧
    ¬Separated entries i j

/-- The rules Google obeys: those for Googlebot, or for every agent when nothing names it. -/
def ObeyedRule (directive : Directive) (value : List Char) : Prop :=
  ((∃ i, AgentAt entries i google) ∧ RuleFor entries google directive value) ∨
    ((∀ i, ¬AgentAt entries i google) ∧ RuleFor entries ['*'] directive value)

end Lines

/-! ## What a pattern matches, and which rule decides -/

/-- A pattern takes the front of a text, a star anything. -/
inductive Takes : List Char → List Char → List Char → Prop
  | nil (s : List Char) : Takes [] s s
  | star {pattern s rest : List Char} (onward : Takes pattern s rest) :
      Takes ('*' :: pattern) s rest
  | skip {c : Char} {pattern s rest : List Char} (onward : Takes ('*' :: pattern) s rest) :
      Takes ('*' :: pattern) (c :: s) rest
  | char {c : Char} {pattern s rest : List Char} (plain : c ≠ '*')
      (onward : Takes pattern s rest) : Takes (c :: pattern) (c :: s) rest

/-- A value matches a path: from its start, and up to its end when the value ends with `$`;
a value that is empty is no rule. -/
def ValueMatches (value path : List Char) : Prop :=
  value ≠ [] ∧
    if value.getLast? = some '$' then Takes value.dropLast path []
    else ∃ rest, Takes value path rest

/-- The longest matching rule allows a path, on a tie one that does, or none matches. -/
def LongestAllows (rules : Directive → List Char → Prop) (path : List Char) : Prop :=
  (∀ directive value, rules directive value → ¬ValueMatches value path) ∨
    ∃ value, rules .allow value ∧ ValueMatches value path ∧
      ∀ directive other, rules directive other → ValueMatches other path →
        other.length ≤ value.length

/-! ## The groups hold the rules -/

section Groups
variable {entries : List (Option Entry)} {i j : Nat} {token value : List Char}
  {directive : Directive} {entry : Option Entry}

/-- The line is an agent or a rule. -/
def IsAgent (entries : List (Option Entry)) (i : Nat) : Prop := ∃ token, AgentAt entries i token

def IsRule (entries : List (Option Entry)) (i : Nat) : Prop :=
  ∃ directive value, RuleAt entries i directive value

theorem getElem?_snoc {x : Entry} : (entries ++ [entry])[i]? = some (some x) ↔
    entries[i]? = some (some x) ∨ i = entries.length ∧ entry = some x := by
  rcases lt_trichotomy i entries.length with hlt | rfl | hgt
  · rw [List.getElem?_append_left hlt]
    exact ⟨.inl, fun h => h.resolve_right fun h => absurd h.1 hlt.ne⟩
  · rw [List.getElem?_append_right le_rfl, Nat.sub_self, List.getElem?_cons_zero,
      List.getElem?_eq_none le_rfl]
    simp
  · rw [List.getElem?_eq_none (by simp; omega), List.getElem?_eq_none hgt.le]
    exact iff_of_false nofun fun h => h.elim nofun fun h => absurd h.1 hgt.ne'

theorem lt_of_getElem? {x : Option Entry} (h : entries[i]? = some x) : i < entries.length :=
  (List.getElem?_eq_some_iff.mp h).1

theorem agentAt_snoc : AgentAt (entries ++ [entry]) i token ↔
    AgentAt entries i token ∨ i = entries.length ∧ entry = some (.userAgent token) :=
  getElem?_snoc

theorem ruleAt_snoc : RuleAt (entries ++ [entry]) i directive value ↔
    RuleAt entries i directive value ∨ i = entries.length ∧ entry = some (.rule directive value) :=
  getElem?_snoc

/-- Whether two lines are separated depends on the lines between them. -/
theorem separated_snoc (h : j ≤ entries.length) :
    Separated (entries ++ [entry]) i j ↔ Separated entries i j := by
  constructor
  · rintro ⟨k, l, hik, hkl, hlj, ⟨d, v, hrule⟩, t, hagent⟩
    refine ⟨k, l, hik, hkl, hlj, ⟨d, v, ?_⟩, t, ?_⟩
    · exact (ruleAt_snoc.mp hrule).resolve_right fun h => by omega
    · exact (agentAt_snoc.mp hagent).resolve_right fun h => by omega
  · rintro ⟨k, l, hik, hkl, hlj, ⟨d, v, hrule⟩, t, hagent⟩
    exact ⟨k, l, hik, hkl, hlj, ⟨d, v, ruleAt_snoc.mpr (.inl hrule)⟩, t,
      agentAt_snoc.mpr (.inl hagent)⟩

/-- A line is separated from the end by what separated it before, or by a last agent that
follows a rule. -/
theorem separated_snoc_end : Separated (entries ++ [entry]) i (entries.length + 1) ↔
    Separated entries i entries.length ∨
      (∃ token, entry = some (.userAgent token)) ∧ ∃ k, i < k ∧ IsRule entries k := by
  constructor
  · rintro ⟨k, l, hik, hkl, hlj, ⟨d, v, hrule⟩, t, hagent⟩
    have hrule := (ruleAt_snoc.mp hrule).resolve_right fun h => by omega
    rcases agentAt_snoc.mp hagent with hagent | ⟨rfl, hlast⟩
    · exact .inl ⟨k, l, hik, hkl, lt_of_getElem? hagent, ⟨d, v, hrule⟩, t, hagent⟩
    · exact .inr ⟨⟨t, hlast⟩, k, hik, d, v, hrule⟩
  · rintro (hsep | ⟨⟨t, rfl⟩, k, hik, d, v, hrule⟩)
    · have hsnoc : Separated (entries ++ [entry]) i entries.length := (separated_snoc le_rfl).mpr hsep
      obtain ⟨k, l, hik, hkl, hlj, hrest⟩ := hsnoc
      exact ⟨k, l, hik, hkl, by omega, hrest⟩
    · exact ⟨k, entries.length, hik, lt_of_getElem? hrule, by omega,
        ⟨d, v, ruleAt_snoc.mpr (.inl hrule)⟩, t, agentAt_snoc.mpr (.inr ⟨rfl, rfl⟩)⟩

/-- A rule is for an agent as before, or it is the last line and in the group that is still
open. -/
theorem ruleFor_snoc : RuleFor (entries ++ [entry]) token directive value ↔
    RuleFor entries token directive value ∨ entry = some (.rule directive value) ∧
      ∃ i, AgentAt entries i token ∧ ¬Separated entries i entries.length := by
  constructor
  · rintro ⟨i, j, hij, hagent, hrule, hsep⟩
    rcases ruleAt_snoc.mp hrule with hrule | ⟨rfl, hlast⟩
    · have hj := lt_of_getElem? hrule
      have hagent := (agentAt_snoc.mp hagent).resolve_right fun h => by omega
      exact .inl ⟨i, j, hij, hagent, hrule, fun h => hsep ((separated_snoc hj.le).mpr h)⟩
    · have hagent := (agentAt_snoc.mp hagent).resolve_right fun h => by omega
      exact .inr ⟨hlast, i, hagent, fun h => hsep ((separated_snoc le_rfl).mpr h)⟩
  · rintro (⟨i, j, hij, hagent, hrule, hsep⟩ | ⟨rfl, i, hagent, hsep⟩)
    · exact ⟨i, j, hij, agentAt_snoc.mpr (.inl hagent), ruleAt_snoc.mpr (.inl hrule),
        fun h => hsep ((separated_snoc (lt_of_getElem? hrule).le).mp h)⟩
    · exact ⟨i, entries.length, lt_of_getElem? hagent, agentAt_snoc.mpr (.inl hagent),
        ruleAt_snoc.mpr (.inr ⟨rfl, rfl⟩), fun h => hsep ((separated_snoc le_rfl).mp h)⟩

/-- A group holds a rule. -/
def Group.Holds (group : Group) (directive : Directive) (value : List Char) : Prop :=
  ∃ rule ∈ group.rules, rule.directive = directive ∧ rule.value = value

/-- What the groups that were read say of the lines that were read. -/
structure Reads (entries : List (Option Entry)) (p : Parsing) : Prop where
  named : ∀ token, (∃ group ∈ p.groups, token ∈ group.agents) ↔ ∃ i, AgentAt entries i token
  rules : ∀ token directive value,
    (∃ group ∈ p.groups, token ∈ group.agents ∧ group.Holds directive value) ↔
      RuleFor entries token directive value
  current : ∀ token, (∃ group ∈ p.current, token ∈ group.agents) ↔
    ∃ i, AgentAt entries i token ∧ ¬Separated entries i entries.length
  idle : ∀ group ∈ p.current, group.rules = [] → ∀ i k, IsAgent entries i →
    ¬Separated entries i entries.length → i < k → ¬IsRule entries k
  busy : ∀ group ∈ p.current, group.rules ≠ [] → ∀ i, IsAgent entries i →
    ∃ k, i < k ∧ IsRule entries k
  start : p.current = none → ∀ i, ¬IsAgent entries i

theorem Reads.nil : Reads [] ⟨[], none⟩ := by
  have hagent : ∀ i, ¬IsAgent [] i := by
    rintro i ⟨t, h⟩
    simp [AgentAt] at h
  refine ⟨fun token => ?_, fun token d v => ?_, fun token => ?_, nofun, nofun, fun _ => hagent⟩
  · exact iff_of_false (by simp [Parsing.groups]) fun ⟨i, h⟩ => hagent i ⟨_, h⟩
  · exact iff_of_false (by simp [Parsing.groups]) fun ⟨i, _, _, h, _⟩ => hagent i ⟨_, h⟩
  · exact iff_of_false (by simp) fun ⟨i, h, _⟩ => hagent i ⟨_, h⟩

theorem mem_groups {p : Parsing} {group : Group} :
    group ∈ p.groups ↔ group ∈ p.before ∨ group ∈ p.current := by
  unfold Parsing.groups
  rw [List.mem_append]
  cases p.current with
  | none => simp
  | some g => simp [eq_comm]

theorem isAgent_snoc : IsAgent (entries ++ [entry]) i ↔
    IsAgent entries i ∨ i = entries.length ∧ ∃ token, entry = some (.userAgent token) := by
  unfold IsAgent
  simp only [agentAt_snoc, exists_or, exists_and_left]

theorem isRule_snoc : IsRule (entries ++ [entry]) i ↔
    IsRule entries i ∨ i = entries.length ∧ ∃ directive value, entry = some (.rule directive value) := by
  unfold IsRule
  simp only [ruleAt_snoc, exists_or, exists_and_left]

/-- A line that says nothing, or a rule before every agent, changes nothing. -/
theorem Reads.skip {p : Parsing} (h : Reads entries p)
    (hskip : entry = none ∨ p.current = none ∧ ∃ d v, entry = some (.rule d v)) :
    Reads (entries ++ [entry]) p := by
  have hnoAgent : ∀ t, entry ≠ some (.userAgent t) := by
    rintro t rfl
    rcases hskip with h | ⟨-, d, v, h⟩ <;> cases h
  have hagent : ∀ i t, AgentAt (entries ++ [entry]) i t ↔ AgentAt entries i t := fun i t =>
    agentAt_snoc.trans (or_iff_left fun hlast => hnoAgent t hlast.2)
  have hsep : ∀ i, Separated (entries ++ [entry]) i (entries ++ [entry]).length ↔
      Separated entries i entries.length := fun i => by
    rw [List.length_append]
    exact separated_snoc_end.trans (or_iff_left fun hlast => hnoAgent _ hlast.1.choose_spec)
  have hisAgent : ∀ i, IsAgent (entries ++ [entry]) i ↔ IsAgent entries i := fun i =>
    exists_congr fun t => hagent i t
  refine ⟨fun t => ?_, fun t d v => ?_, fun t => ?_, fun g hg hnil i k hi hsep' hik => ?_,
    fun g hg hne i hi => ?_, fun hnone i => ?_⟩
  · simp only [hagent]
    exact h.named t
  · rw [ruleFor_snoc, or_iff_left]
    · exact h.rules t d v
    · rintro ⟨hlast, i, hi, -⟩
      rcases hskip with hentry | ⟨hnone, -⟩
      · rw [hentry] at hlast
        cases hlast
      · exact h.start hnone i ⟨t, hi⟩
  · simp only [hagent, hsep]
    exact h.current t
  · rcases hskip with hentry | ⟨hnone, -⟩
    · rw [isRule_snoc, not_or]
      refine ⟨h.idle g hg hnil i k ((hisAgent i).mp hi) (mt (hsep i).mpr hsep') hik, ?_⟩
      rintro ⟨-, d, v, hlast⟩
      rw [hentry] at hlast
      cases hlast
    · rw [hnone] at hg
      cases hg
  · obtain ⟨k, hik, hk⟩ := h.busy g hg hne i ((hisAgent i).mp hi)
    exact ⟨k, hik, isRule_snoc.mpr (.inl hk)⟩
  · exact mt (hisAgent i).mp (h.start hnone i)

/-- A rule joins the group that is open. -/
theorem Reads.rule {before : List Group} {group : Group} {number : Nat}
    (h : Reads entries ⟨before, some group⟩) :
    Reads (entries ++ [some (.rule directive value)])
      ⟨before, some { group with rules := group.rules ++ [⟨number, directive, value⟩] }⟩ := by
  have hagent : ∀ i t, AgentAt (entries ++ [some (.rule directive value)]) i t ↔
      AgentAt entries i t := fun i t => agentAt_snoc.trans (or_iff_left nofun)
  have hsep : ∀ i, Separated (entries ++ [some (.rule directive value)]) i
      (entries ++ [some (Entry.rule directive value)]).length ↔ Separated entries i entries.length :=
    fun i => by
      rw [List.length_append]
      exact separated_snoc_end.trans (or_iff_left fun hlast => nomatch hlast.1.choose_spec)
  refine ⟨fun t => ?_, fun t d v => ?_, fun t => ?_, fun g hg hnil => ?_,
    fun g hg hne i hi => ?_, nofun⟩
  · have hnamed := h.named t
    simp only [hagent, mem_groups, Option.mem_def, Option.some.injEq, or_and_right, exists_or,
      ↓existsAndEq, true_and] at hnamed ⊢
    exact hnamed
  · have hrules := h.rules t d v
    have hcurrent := h.current t
    rw [ruleFor_snoc, ← hrules, ← hcurrent]
    simp only [mem_groups, Option.mem_def, Option.some.injEq, or_and_right, exists_or,
      ↓existsAndEq, true_and, Group.Holds, List.mem_append, List.mem_singleton, Entry.rule.injEq,
      and_or_left, or_assoc]
    exact or_congr_right (or_congr_right and_comm)
  · simp only [hagent, hsep, ← h.current t, Option.mem_def, Option.some.injEq, ↓existsAndEq,
      true_and]
  · obtain rfl := Option.some.inj hg
    simp at hnil
  · obtain ⟨t, ht⟩ := hi
    have hi := (hagent i t).mp ht
    exact ⟨entries.length, lt_of_getElem? hi, directive, value, ruleAt_snoc.mpr (.inr ⟨rfl, rfl⟩)⟩

/-- An agent joins a group that has no rules yet. -/
theorem Reads.join {before : List Group} {group : Group}
    (h : Reads entries ⟨before, some group⟩) (hnil : group.rules = []) :
    Reads (entries ++ [some (.userAgent token)])
      ⟨before, some { group with agents := group.agents ++ [token] }⟩ := by
  have hsep : ∀ i, IsAgent entries i →
      (Separated (entries ++ [some (.userAgent token)]) i
        (entries ++ [some (Entry.userAgent token)]).length ↔ Separated entries i entries.length) := by
    intro i hi
    rw [List.length_append]
    refine separated_snoc_end.trans ⟨fun hor => ?_, .inl⟩
    by_contra hnot
    obtain ⟨-, k, hik, hk⟩ := hor.resolve_left hnot
    exact h.idle group rfl hnil i k hi hnot hik hk
  have hlast : ¬Separated (entries ++ [some (.userAgent token)]) entries.length
      (entries ++ [some (Entry.userAgent token)]).length := by
    rintro ⟨k, l, hk, hkl, hl, -⟩
    simp at hl
    omega
  refine ⟨fun t => ?_, fun t d v => ?_, fun t => ?_, fun g hg _ i k hi hsep' hik => ?_,
    fun g hg hne => ?_, nofun⟩
  · have hnamed := h.named t
    simp only [agentAt_snoc, exists_or, ← hnamed, mem_groups, Option.mem_def, Option.some.injEq,
      or_and_right, ↓existsAndEq, true_and, List.mem_append, List.mem_singleton,
      Entry.userAgent.injEq, eq_comm (a := t), or_assoc]
  · have hrules := h.rules t d v
    rw [ruleFor_snoc, or_iff_left (fun hr => nomatch hr.1), ← hrules]
    simp only [mem_groups, Option.mem_def, Option.some.injEq, or_and_right, exists_or,
      ↓existsAndEq, Group.Holds, hnil, List.not_mem_nil, false_and, exists_false,
      and_false]
  · have hcurrent := h.current t
    simp only [Option.mem_def, Option.some.injEq, ↓existsAndEq, true_and] at hcurrent
    simp only [Option.mem_def, Option.some.injEq, ↓existsAndEq, true_and, List.mem_append,
      List.mem_singleton, hcurrent]
    constructor
    · rintro (⟨i, hi, hopen⟩ | rfl)
      · exact ⟨i, agentAt_snoc.mpr (.inl hi), mt (hsep i ⟨t, hi⟩).mp hopen⟩
      · exact ⟨entries.length, agentAt_snoc.mpr (.inr ⟨rfl, rfl⟩), hlast⟩
    · rintro ⟨i, hi, hopen⟩
      rcases agentAt_snoc.mp hi with hi | ⟨-, ht⟩
      · exact .inl ⟨i, hi, mt (hsep i ⟨t, hi⟩).mpr hopen⟩
      · exact .inr (Entry.userAgent.inj (Option.some.inj ht)).symm
  · rw [isRule_snoc, not_or]
    refine ⟨fun hk => ?_, nofun⟩
    rcases isAgent_snoc.mp hi with hi | ⟨rfl, -⟩
    · exact h.idle group rfl hnil i k hi (mt (hsep i hi).mpr hsep') hik hk
    · obtain ⟨d, v, hrule⟩ := hk
      exact absurd (lt_of_getElem? hrule) hik.not_gt
  · obtain rfl := Option.some.inj hg
    exact absurd hnil hne

/-- An agent after rules, or the first one, begins a group. -/
theorem Reads.begin {p : Parsing} (h : Reads entries p)
    (hbusy : ∀ group ∈ p.current, group.rules ≠ []) :
    Reads (entries ++ [some (.userAgent token)]) ⟨p.groups, some ⟨[token], []⟩⟩ := by
  have hsep : ∀ i, IsAgent entries i → Separated (entries ++ [some (.userAgent token)]) i
      (entries ++ [some (Entry.userAgent token)]).length := by
    intro i hi
    cases hcurrent : p.current with
    | none => exact absurd hi (h.start hcurrent i)
    | some group =>
        obtain ⟨k, hik, hk⟩ := h.busy group hcurrent (hbusy group hcurrent) i hi
        rw [List.length_append]
        exact separated_snoc_end.mpr (.inr ⟨⟨token, rfl⟩, k, hik, hk⟩)
  have hlast : ¬Separated (entries ++ [some (.userAgent token)]) entries.length
      (entries ++ [some (Entry.userAgent token)]).length := by
    rintro ⟨k, l, hk, hkl, hl, -⟩
    simp at hl
    omega
  have hgroups : ∀ group, group ∈ (⟨p.groups, some ⟨[token], []⟩⟩ : Parsing).groups ↔
      group ∈ p.groups ∨ group = ⟨[token], []⟩ := fun group => by
    rw [mem_groups]
    simp [eq_comm]
  refine ⟨fun t => ?_, fun t d v => ?_, fun t => ?_, fun g hg _ i k hi hsep' hik => ?_,
    fun g hg hne => ?_, nofun⟩
  · simp only [hgroups, agentAt_snoc, exists_or, ← h.named t, or_and_right, ↓existsAndEq,
      true_and, List.mem_singleton, Option.some.injEq, Entry.userAgent.injEq, eq_comm (a := t)]
  · rw [ruleFor_snoc, or_iff_left (fun hr => nomatch hr.1), ← h.rules t d v]
    simp only [hgroups, or_and_right, exists_or, ↓existsAndEq, Group.Holds,
      List.not_mem_nil, false_and, exists_false, and_false, or_false]
  · simp only [Option.mem_def, Option.some.injEq, ↓existsAndEq, true_and, List.mem_singleton]
    constructor
    · rintro rfl
      exact ⟨entries.length, agentAt_snoc.mpr (.inr ⟨rfl, rfl⟩), hlast⟩
    · rintro ⟨i, hi, hopen⟩
      rcases agentAt_snoc.mp hi with hi | ⟨-, ht⟩
      · exact absurd (hsep i ⟨t, hi⟩) hopen
      · exact (Entry.userAgent.inj (Option.some.inj ht)).symm
  · rw [isRule_snoc, not_or]
    refine ⟨fun hk => ?_, nofun⟩
    rcases isAgent_snoc.mp hi with hi | ⟨rfl, -⟩
    · exact hsep' (hsep i hi)
    · obtain ⟨d, v, hrule⟩ := hk
      exact absurd (lt_of_getElem? hrule) hik.not_gt
  · obtain rfl := Option.some.inj hg
    exact absurd rfl hne

/-- What one more line does. -/
theorem Reads.addLine (U : Url.Unicode) {p : Parsing} {raw : List Char} {number : Nat}
    (h : Reads entries p) :
    Reads (entries ++ [entryOf U raw]) (addLine U p (raw, number)) := by
  unfold Scan.addLine
  dsimp only
  split
  · next token hentry hcurrent =>
      rw [hentry]
      have hgroups : p.groups = p.before := by simp [Parsing.groups, hcurrent]
      rw [← hgroups]
      exact h.begin (by simp [hcurrent])
  · next token group hentry hcurrent =>
      obtain ⟨before, current⟩ := p
      obtain rfl : current = some group := hcurrent
      rw [hentry]
      split
      · next hnil => exact h.join (List.isEmpty_iff.mp hnil)
      · next hne =>
          refine h.begin fun other hother => ?_
          obtain rfl := Option.some.inj hother
          exact fun hnil => hne (List.isEmpty_iff.mpr hnil)
  · next directive value group hentry hcurrent =>
      obtain ⟨before, current⟩ := p
      obtain rfl : current = some group := hcurrent
      rw [hentry]
      exact h.rule
  · next hagentNone hagentSome hrule =>
      refine h.skip ?_
      cases hentry : entryOf U raw with
      | none => exact .inl rfl
      | some entry =>
          cases entry with
          | userAgent token =>
              cases hcurrent : p.current with
              | none => exact absurd hcurrent (hagentNone token hentry)
              | some group => exact absurd hcurrent (hagentSome token group hentry)
          | rule directive value =>
              cases hcurrent : p.current with
              | none => exact .inr ⟨rfl, directive, value, rfl⟩
              | some group => exact absurd hcurrent (hrule directive value group hentry)

theorem foldl_reads (U : Url.Unicode) (lines : List (List Char)) (start : Nat)
    {p : Parsing} (h : Reads entries p) :
    Reads (entries ++ lines.map (entryOf U)) ((lines.zipIdx start).foldl (addLine U) p) := by
  induction lines generalizing entries p start with
  | nil => rwa [List.map_nil, List.append_nil]
  | cons raw lines ih =>
      rw [List.zipIdx_cons, List.foldl_cons, List.map_cons, ← List.singleton_append,
        ← List.append_assoc]
      exact ih (start + 1) (h.addLine U)

end Groups

/-! ## The rules Google obeys -/

section Verdicts
variable (U : Url.Unicode) (lines : List (List Char))

/-- The rules a file has for Google. -/
def GoogleRule (directive : Directive) (value : List Char) : Prop :=
  ObeyedRule (lines.map (entryOf U)) directive value

/-- What the groups of one agent hold are the rules for it. -/
theorem parseGroups_rules (token : List Char) (directive : Directive) (value : List Char) :
    (∃ rule ∈ ((parseGroups U lines).filter fun group =>
        group.agents.contains token).flatMap Group.rules,
      rule.directive = directive ∧ rule.value = value) ↔
      RuleFor (lines.map (entryOf U)) token directive value := by
  have hreads : Reads (lines.map (entryOf U))
      (lines.zipIdx.foldl (addLine U) ⟨[], none⟩) := foldl_reads U lines 0 Reads.nil
  rw [← hreads.rules token directive value]
  constructor
  · rintro ⟨rule, hrule, hsame⟩
    obtain ⟨group, hgroup, hin⟩ := List.mem_flatMap.mp hrule
    obtain ⟨hgroup, htoken⟩ := List.mem_filter.mp hgroup
    exact ⟨group, hgroup, List.contains_iff_mem.mp htoken, rule, hin, hsame⟩
  · rintro ⟨group, hgroup, htoken, rule, hin, hsame⟩
    exact ⟨rule, List.mem_flatMap.mpr ⟨group, List.mem_filter.mpr
      ⟨hgroup, List.contains_iff_mem.mpr htoken⟩, hin⟩, hsame⟩

/-- The groups that Google obeys hold the rules of the lines for Google. -/
theorem googleRule_iff (directive : Directive) (value : List Char) :
    (∃ rule ∈ googleRules U lines, rule.directive = directive ∧ rule.value = value) ↔
      GoogleRule U lines directive value := by
  have hreads : Reads (lines.map (entryOf U))
      (lines.zipIdx.foldl (addLine U) ⟨[], none⟩) := foldl_reads U lines 0 Reads.nil
  have hnamed := hreads.named google
  unfold googleRules groupsForGoogle GoogleRule ObeyedRule
  dsimp only
  split
  · next hnone =>
      have hno : ∀ i, ¬AgentAt (lines.map (entryOf U)) i google := by
        intro i hi
        obtain ⟨group, hgroup, htoken⟩ := hnamed.mpr ⟨i, hi⟩
        have hmem : group ∈ (parseGroups U lines).filter fun group =>
            group.agents.contains google :=
          List.mem_filter.mpr ⟨hgroup, List.contains_iff_mem.mpr htoken⟩
        exact List.not_mem_nil (List.isEmpty_iff.mp hnone ▸ hmem)
      rw [parseGroups_rules, or_iff_right fun h => hno _ h.1.choose_spec, and_iff_right hno]
  · next hsome =>
      have hyes : ∃ i, AgentAt (lines.map (entryOf U)) i google := by
        obtain ⟨group, hmem⟩ := List.exists_mem_of_ne_nil _ (mt List.isEmpty_iff.mpr hsome)
        obtain ⟨hgroup, htoken⟩ := List.mem_filter.mp hmem
        exact hnamed.mp ⟨group, hgroup, List.contains_iff_mem.mp htoken⟩
      rw [parseGroups_rules, and_iff_right hyes, or_iff_left fun h => h.1 _ hyes.choose_spec]

/-- The verdict depends on the rules for Google alone, and is that of the longest match where
the matcher is right about each of them. -/
theorem allowsPath_iff_reference {path : List Char}
    (h : ∀ directive value, GoogleRule U lines directive value →
      (value ≠ [] ∧ matchesPattern value path = true ↔ ValueMatches value path)) :
    allowsPath U lines path = true ↔ LongestAllows (GoogleRule U lines) path := by
  have happlies : ∀ rule ∈ googleRules U lines,
      (rule.applies path = true ↔ ValueMatches rule.value path) := by
    intro rule hrule
    rw [← h rule.directive rule.value ((googleRule_iff U lines _ _).mp ⟨rule, hrule, rfl, rfl⟩)]
    simp [Rule.applies]
  have hrules := googleRule_iff U lines
  rw [allowsPath_iff]
  constructor
  · intro hopen
    by_cases hany : ∃ rule ∈ googleRules U lines, rule.applies path = true
    · -- The longest of the rules that match, or the `Allow` that stands against it.
      obtain ⟨rule, hrule, happly⟩ := hany
      obtain ⟨longest, hlongest, hmax⟩ := Finset.exists_max_image
        ((googleRules U lines).filter (·.applies path)).toFinset (fun rule => rule.value.length)
        ⟨rule, List.mem_toFinset.mpr (List.mem_filter.mpr ⟨hrule, happly⟩)⟩
      obtain ⟨hin, hlongApplies⟩ := List.mem_filter.mp (List.mem_toFinset.mp hlongest)
      obtain ⟨other, hother, hallow, hotherApplies, hle⟩ : ∃ other ∈ googleRules U lines,
          other.directive = .allow ∧ other.applies path = true ∧
            longest.value.length ≤ other.value.length := by
        cases hdirective : longest.directive with
        | allow => exact ⟨longest, hin, hdirective, hlongApplies, le_rfl⟩
        | disallow => exact hopen longest hin hdirective hlongApplies
      refine .inr ⟨other.value, (hrules _ _).mp ⟨other, hother, hallow, rfl⟩,
        (happlies other hother).mp hotherApplies, fun d v hobeyed hmatches => ?_⟩
      obtain ⟨rule, hrule, -, rfl⟩ := (hrules d v).mpr hobeyed
      have hmem : rule ∈ (googleRules U lines).filter (·.applies path) :=
        List.mem_filter.mpr ⟨hrule, (happlies rule hrule).mpr hmatches⟩
      exact (hmax rule (List.mem_toFinset.mpr hmem)).trans hle
    · refine .inl fun d v hobeyed hmatches => ?_
      obtain ⟨rule, hrule, -, rfl⟩ := (hrules d v).mpr hobeyed
      exact hany ⟨rule, hrule, (happlies rule hrule).mpr hmatches⟩
  · intro hlongest rule hrule hdisallow happly
    have hobeyed := (hrules _ _).mp ⟨rule, hrule, rfl, rfl⟩
    have hmatches := (happlies rule hrule).mp happly
    rcases hlongest with hnone | ⟨value, hallow, hvalue, hmax⟩
    · exact absurd hmatches (hnone _ _ hobeyed)
    · obtain ⟨other, hother, hdirective, rfl⟩ := (hrules _ _).mpr hallow
      exact ⟨other, hother, hdirective, (happlies other hother).mpr hvalue,
        hmax _ _ hobeyed hmatches⟩

/-- Files with the same rules for Google that match a path have the same verdict on it, in
whatever order the rules stand and however they are split over groups. -/
theorem allowsPath_congr {lines' : List (List Char)} (path : List Char)
    (h : ∀ directive value, matchesPattern value path = true →
      (GoogleRule U lines directive value ↔ GoogleRule U lines' directive value)) :
    allowsPath U lines path = allowsPath U lines' path := by
  have hsame : ∀ (lines lines' : List (List Char)), (∀ directive value,
      matchesPattern value path = true →
      (GoogleRule U lines directive value ↔ GoogleRule U lines' directive value)) →
      OpenAt (googleRules U lines) path → OpenAt (googleRules U lines') path := by
    intro lines lines' h hopen rule hrule hdisallow happly
    obtain ⟨same, hsame, hdirective, hvalue⟩ := (googleRule_iff U lines _ _).mpr
      ((h _ _ (Bool.and_eq_true_iff.mp happly).2).mpr
        ((googleRule_iff U lines' _ _).mp ⟨rule, hrule, rfl, rfl⟩))
    have hsameApplies : same.applies path = true := by
      rwa [Rule.applies, hvalue]
    obtain ⟨other, hother, hallow, hotherApplies, hle⟩ :=
      hopen same hsame (hdirective.trans hdisallow) hsameApplies
    obtain ⟨other', hother', hdirective', hvalue'⟩ := (googleRule_iff U lines' _ _).mpr
      ((h _ _ (Bool.and_eq_true_iff.mp hotherApplies).2).mp
        ((googleRule_iff U lines _ _).mp ⟨other, hother, rfl, rfl⟩))
    refine ⟨other', hother', hdirective'.trans hallow, ?_, ?_⟩
    · rwa [Rule.applies, hvalue']
    · rwa [hvalue', ← hvalue]
  rw [Bool.eq_iff_iff, allowsPath_iff, allowsPath_iff]
  exact ⟨hsame lines lines' h, hsame lines' lines fun d v hv => (h d v hv).symm⟩

end Verdicts

end SeoAgent.Scan
