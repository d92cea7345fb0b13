import SeoAgent.Scan.RobotsRules

/-!
# The robots.txt to propose

`improve_robots` (`app/scan/files.py`) empties the rules that keep Google out of the whole
site, line by line, and adds a `Sitemap` line when none names the address. What an edit of
lines does to the groups and rules of the file is followed through `parse_groups`: a line
that says nothing can be added or left out at the end, and an emptied line empties one rule.

## Main results

* `parseGroups_emptied` — the groups of a file with emptied lines.
* `parseGroups_proposed` — lines at the end do not matter.
* `improveRobots_safe` — what a proposed file keeps of the file before it.
-/

namespace SeoAgent.Scan

open SeoAgent.Verified Lines

/-! ## Proposing -/

inductive RobotsChange
  | created
  | removedBlockAll
  | addedSitemap
  deriving DecidableEq, Repr

def emptyRule : List Char := "Disallow:".toList

def createdLines : List (List Char) := ["User-agent: *".toList, emptyRule]

def sitemapLine (url : List Char) : List Char := "Sitemap: ".toList ++ url

/-- `_trimmed`. -/
def trimmed (lines : List (List Char)) : List (List Char) := lines.rdropWhile isBlank

/-- The lines of these numbers emptied. -/
def emptiedLines (numbers : List Nat) (lines : List (List Char)) (start : Nat) :
    List (List Char) :=
  (lines.zipIdx start).map fun numbered =>
    if numbers.contains numbered.2 then emptyRule else numbered.1

section Proposing
variable (U : Url.Unicode)

/-- `_is_sitemap_line`. -/
def isSitemapLine (url line : List Char) : Bool :=
  "sitemap:".toList.isPrefixOf (U.lower line) &&
    strip ((line.dropWhile (· ≠ ':')).drop 1) == url

/-- `_without_block_all`. -/
def withoutBlockAll (lines : List (List Char)) : List (List Char) × Bool :=
  let blocking := blockingLines U lines
  (emptiedLines blocking lines 0, !blocking.isEmpty)

/-- The lines without a rule that keeps Google out of the whole site. -/
def openedLines (current : Option (List Char)) : List (List Char) × List RobotsChange :=
  let text := current.getD []
  if (strip text).isEmpty then (createdLines, [.created])
  else
    let opened := withoutBlockAll U (splitLines text)
    (opened.1, if opened.2 then [.removedBlockAll] else [])

/-- The lines with a sitemap, if there is one to name. -/
def withSitemap (sitemapUrl : Option (List Char))
    (opened : List (List Char) × List RobotsChange) : List (List Char) × List RobotsChange :=
  let url := sitemapUrl.getD []
  if !url.isEmpty && !opened.1.any (isSitemapLine U url) then
    (trimmed opened.1 ++ [[], sitemapLine url], opened.2 ++ [.addedSitemap])
  else opened

/-- `improve_robots`. -/
def improveRobots (current sitemapUrl : Option (List Char)) : List Char × List RobotsChange :=
  let proposed := withSitemap U sitemapUrl (openedLines U current)
  (rstripBreaks (join proposed.1) ++ ['\n'], proposed.2)

end Proposing

/-! ## Lines that say nothing -/

section Silent
variable {U : Url.Unicode}

theorem entryOf_blank {line : List Char} (h : isBlank line = true) : entryOf U line = none := by
  have hstrip : strip (line.takeWhile (· ≠ '#')) = [] :=
    strip_eq_nil.mpr fun c hc => isBlank_iff.mp h c ((List.takeWhile_prefix _).subset hc)
  unfold entryOf nameAndValue
  rw [hstrip]
  rfl

theorem addLine_silent {p : Parsing} {numbered : List Char × Nat}
    (h : entryOf U numbered.1 = none) : addLine U p numbered = p := by
  unfold addLine
  rw [h]

theorem foldl_silent {lines : List (List Char)} (h : ∀ line ∈ lines, entryOf U line = none)
    (start : Nat) (p : Parsing) : (lines.zipIdx start).foldl (addLine U) p = p := by
  induction lines generalizing start with
  | nil => rfl
  | cons line lines ih =>
      rw [List.zipIdx_cons, List.foldl_cons, addLine_silent (h line List.mem_cons_self)]
      exact ih (fun l hl => h l (List.mem_cons_of_mem line hl)) (start + 1)

/-- Lines that say nothing do not matter at the end. -/
theorem parseGroups_append {lines extra : List (List Char)}
    (h : ∀ line ∈ extra, entryOf U line = none) :
    parseGroups U (lines ++ extra) = parseGroups U lines := by
  unfold parseGroups
  rw [List.zipIdx_append, List.foldl_append, foldl_silent h]

/-- They do not matter when they are dropped there. -/
theorem parseGroups_rdropWhile {lines : List (List Char)} {p : List Char → Bool}
    (h : ∀ line, p line = true → entryOf U line = none) :
    parseGroups U (lines.rdropWhile p) = parseGroups U lines := by
  have hsplit := List.rdropWhile_append_rtakeWhile (p := p) (l := lines)
  rw [← parseGroups_append (fun line hline => h line (List.mem_rtakeWhile_imp hline)), hsplit]

theorem isBlank_of_isEmpty {line : List Char} (h : line.isEmpty = true) : isBlank line = true := by
  rw [List.isEmpty_iff.mp h]
  rfl

theorem entryOf_emptyRule (U : Url.CaseTable) :
    entryOf U.toUnicode emptyRule = some (.rule .disallow []) := by
  have hname : U.lower "Disallow".toList = "disallow".toList := U.lower_plain (by decide)
  have hline : nameAndValue U.toUnicode emptyRule = some (U.lower "Disallow".toList, []) := rfl
  unfold entryOf
  rw [hline, hname]
  dsimp only
  rw [if_neg (by decide), if_neg (by decide), if_pos rfl]

theorem rdropWhile_append_of_not {α : Type} {p : α → Bool} {x : α} (front : List α)
    (h : ¬p x = true) (back : List α) :
    (front ++ x :: back).rdropWhile p = front ++ x :: back.rdropWhile p := by
  induction back using List.reverseRecOn with
  | nil => exact List.rdropWhile_concat_neg p front x h
  | append_singleton back y ih =>
      have hassoc : front ++ x :: (back ++ [y]) = (front ++ x :: back) ++ [y] := by simp
      rw [hassoc]
      by_cases hy : p y = true
      · rw [List.rdropWhile_concat_pos _ _ _ hy, List.rdropWhile_concat_pos _ _ _ hy, ih]
      · rw [List.rdropWhile_concat_neg _ _ _ hy, List.rdropWhile_concat_neg _ _ _ hy, hassoc]

/-- A `Sitemap` line is for no group. -/
theorem entryOf_sitemapLine (U : Url.CaseTable) (url : List Char) :
    entryOf U.toUnicode (sitemapLine url) = none := by
  have hname : U.lower "Sitemap".toList = "sitemap".toList := U.lower_plain (by decide)
  have hcut : (sitemapLine url).takeWhile (· ≠ '#') =
      "Sitemap".toList ++ ':' :: ' ' :: url.takeWhile (· ≠ '#') := rfl
  have hstrip : strip ("Sitemap".toList ++ ':' :: ' ' :: url.takeWhile (· ≠ '#')) =
      "Sitemap".toList ++ ':' :: (' ' :: url.takeWhile (· ≠ '#')).rdropWhile Text.isSpace :=
    rdropWhile_append_of_not "Sitemap".toList (by decide) _
  have hline : (nameAndValue U.toUnicode (sitemapLine url)).map Prod.fst =
      some (U.lower "Sitemap".toList) := by
    unfold nameAndValue
    rw [hcut, hstrip]
    rfl
  obtain ⟨⟨name, value⟩, hline, hfst⟩ := Option.map_eq_some_iff.mp hline
  unfold entryOf
  rw [hline]
  dsimp only at hfst ⊢
  rw [hfst, hname, if_neg (by decide), if_neg (by decide), if_neg (by decide)]

end Silent

/-! ## Emptied rules -/

def Rule.emptied (numbers : List Nat) (rule : Rule) : Rule :=
  if numbers.contains rule.number then { rule with value := [] } else rule

def Group.emptied (numbers : List Nat) (group : Group) : Group :=
  { group with rules := group.rules.map (Rule.emptied numbers) }

def Parsing.emptied (numbers : List Nat) (p : Parsing) : Parsing :=
  ⟨p.before.map (Group.emptied numbers), p.current.map (Group.emptied numbers)⟩

section Emptied
variable {numbers : List Nat} {U : Url.CaseTable}

theorem Parsing.emptied_groups (p : Parsing) :
    (p.emptied numbers).groups = p.groups.map (Group.emptied numbers) := by
  obtain ⟨before, _ | group⟩ := p
  · simp [groups, emptied]
  · simp [groups, emptied]

/-- An emptied line empties its rule. -/
theorem addLine_emptied {p : Parsing} {raw : List Char} {number : Nat}
    (h : numbers.contains number = true →
      ∃ value, entryOf U.toUnicode raw = some (.rule .disallow value)) :
    addLine U.toUnicode (p.emptied numbers)
        (if numbers.contains number then emptyRule else raw, number) =
      (addLine U.toUnicode p (raw, number)).emptied numbers := by
  obtain ⟨before, current⟩ := p
  by_cases hnumber : numbers.contains number = true
  · obtain ⟨value, hentry⟩ := h hnumber
    rw [if_pos hnumber]
    unfold addLine
    rw [entryOf_emptyRule, hentry]
    cases current with
    | none => rfl
    | some group =>
        simp only [Parsing.emptied, Group.emptied, Option.map_some, List.map_append,
          List.map_cons, List.map_nil, Rule.emptied, hnumber, if_true]
  · rw [if_neg hnumber]
    unfold addLine
    dsimp only
    cases hentry : entryOf U.toUnicode raw with
    | none => rfl
    | some entry =>
        cases entry with
        | userAgent token =>
            cases current with
            | none => rfl
            | some group =>
                have hempty : (group.emptied numbers).rules.isEmpty = group.rules.isEmpty :=
                  List.isEmpty_map
                simp only [Parsing.emptied, Option.map_some, hempty]
                split
                · rfl
                · simp only [List.map_append, List.map_cons, List.map_nil]
                  rfl
        | rule directive value =>
            cases current with
            | none => rfl
            | some group =>
                simp only [Parsing.emptied, Group.emptied, Option.map_some, List.map_append,
                  List.map_cons, List.map_nil, Rule.emptied, hnumber]
                rfl

theorem foldl_emptied {lines : List (List Char)} (start : Nat) (p : Parsing)
    (h : ∀ numbered ∈ lines.zipIdx start, numbers.contains numbered.2 = true →
      ∃ value, entryOf U.toUnicode numbered.1 = some (.rule .disallow value)) :
    ((emptiedLines numbers lines start).zipIdx start).foldl (addLine U.toUnicode)
        (p.emptied numbers) =
      ((lines.zipIdx start).foldl (addLine U.toUnicode) p).emptied numbers := by
  induction lines generalizing start p with
  | nil => rfl
  | cons raw lines ih =>
      have hstep : emptiedLines numbers (raw :: lines) start =
          (if numbers.contains start then emptyRule else raw) ::
            emptiedLines numbers lines (start + 1) := rfl
      rw [hstep, List.zipIdx_cons, List.zipIdx_cons, List.foldl_cons, List.foldl_cons,
        addLine_emptied (h (raw, start) List.mem_cons_self)]
      exact ih (start + 1) _ fun numbered hmem => h numbered (List.mem_cons_of_mem _ hmem)

/-! ## The numbers of rules -/

def Parsing.rules (p : Parsing) : List Rule := p.groups.flatMap Group.rules

/-- A line adds its rule, or none. -/
theorem addLine_rules {U : Url.Unicode} (p : Parsing) (numbered : List Char × Nat) :
    (addLine U p numbered).rules = p.rules ∨
      ∃ directive value, entryOf U numbered.1 = some (.rule directive value) ∧
        (addLine U p numbered).rules = p.rules ++ [⟨numbered.2, directive, value⟩] := by
  obtain ⟨before, current⟩ := p
  unfold addLine
  split
  · next hnone => exact .inl (by simp_all [Parsing.rules, Parsing.groups])
  · next token group hentry hcurrent =>
      dsimp only at hcurrent
      subst hcurrent
      split
      · exact .inl (by simp [Parsing.rules, Parsing.groups])
      · exact .inl (by simp [Parsing.rules, Parsing.groups])
  · next directive value group hentry hcurrent =>
      dsimp only at hcurrent
      subst hcurrent
      exact .inr ⟨directive, value, hentry, by simp [Parsing.rules, Parsing.groups]⟩
  · exact .inl rfl

/-- The rules read so far are of earlier lines, each of another one. -/
structure Numbered (U : Url.Unicode) (all : List (List Char × Nat)) (next : Nat)
    (rules : List Rule) : Prop where
  origin : ∀ rule ∈ rules, ∃ raw, (raw, rule.number) ∈ all ∧
    entryOf U raw = some (.rule rule.directive rule.value)
  earlier : ∀ rule ∈ rules, rule.number < next
  nodup : (rules.map Rule.number).Nodup

theorem foldl_numbered {U : Url.Unicode} {all : List (List Char × Nat)}
    {lines : List (List Char)} (start : Nat) (p : Parsing)
    (hall : ∀ numbered ∈ lines.zipIdx start, numbered ∈ all)
    (h : Numbered U all start p.rules) :
    Numbered U all (start + lines.length) ((lines.zipIdx start).foldl (addLine U) p).rules := by
  induction lines generalizing start p with
  | nil => exact h
  | cons raw lines ih =>
      have hraw : (raw, start) ∈ all := hall _ List.mem_cons_self
      have hstep : Numbered U all (start + 1) (addLine U p (raw, start)).rules := by
        rcases addLine_rules (U := U) p (raw, start) with hsame | ⟨directive, value, hentry, hmore⟩
        · rw [hsame]
          exact ⟨h.origin, fun rule hrule => Nat.lt_succ_of_lt (h.earlier rule hrule), h.nodup⟩
        · rw [hmore]
          refine ⟨fun rule hrule => ?_, fun rule hrule => ?_, ?_⟩
          · rcases List.mem_append.mp hrule with hrule | hrule
            · exact h.origin rule hrule
            · rw [List.mem_singleton.mp hrule]
              exact ⟨raw, hraw, hentry⟩
          · rcases List.mem_append.mp hrule with hrule | hrule
            · exact Nat.lt_succ_of_lt (h.earlier rule hrule)
            · rw [List.mem_singleton.mp hrule]
              exact Nat.lt_succ_self start
          · rw [List.map_append, List.map_singleton, List.nodup_append]
            refine ⟨h.nodup, List.nodup_singleton _, fun n hn m hm => ?_⟩
            obtain ⟨rule, hrule, rfl⟩ := List.mem_map.mp hn
            rw [List.mem_singleton.mp hm]
            exact Nat.ne_of_lt (h.earlier rule hrule)
      rw [List.zipIdx_cons, List.foldl_cons, List.length_cons, Nat.add_comm lines.length,
        ← Nat.add_assoc]
      exact ih (start + 1) _ (fun numbered hmem => hall _ (List.mem_cons_of_mem _ hmem)) hstep

theorem rules_numbered (U : Url.Unicode) (lines : List (List Char)) :
    Numbered U lines.zipIdx lines.length ((parseGroups U lines).flatMap Group.rules) := by
  have h := @foldl_numbered U lines.zipIdx lines 0 ⟨[], none⟩
    (fun _ hmem => hmem) ⟨fun _ h => absurd h List.not_mem_nil,
      fun _ h => absurd h List.not_mem_nil, List.nodup_nil⟩
  rwa [Nat.zero_add] at h

/-- Rules of different groups have different numbers. -/
theorem group_of_number {U : Url.Unicode} {lines : List (List Char)} {group other : Group}
    {rule rule' : Rule} (hgroup : group ∈ parseGroups U lines) (hother : other ∈ parseGroups U lines)
    (hrule : rule ∈ group.rules) (hrule' : rule' ∈ other.rules)
    (hsame : rule.number = rule'.number) : group = other := by
  have hnodup := (rules_numbered U lines).nodup
  rw [List.map_flatMap, List.nodup_flatMap] at hnodup
  have hsymm : Std.Symm (Function.onFun List.Disjoint fun group : Group =>
      group.rules.map Rule.number) := ⟨fun _ _ h => List.Disjoint.symm h⟩
  by_contra hne
  have hapart := hnodup.2.forall hgroup hother hne
  exact hapart (List.mem_map_of_mem hrule) (hsame ▸ List.mem_map_of_mem hrule')

/-! ## What Google obeys -/

theorem groupsForGoogle_map {f : Group → Group} (h : ∀ group, (f group).agents = group.agents)
    (groups : List Group) : groupsForGoogle (groups.map f) = (groupsForGoogle groups).map f := by
  have hfilter (agent : List Char) :
      (groups.map f).filter (fun group => group.agents.contains agent) =
        (groups.filter fun group => group.agents.contains agent).map f := by
    rw [List.filter_map]
    congr 1
    exact List.filter_congr fun group _ => by rw [Function.comp_apply, h]
  unfold groupsForGoogle
  dsimp only
  rw [hfilter, hfilter, List.isEmpty_map]
  split <;> rfl

theorem groupsForGoogle_subset (groups : List Group) : ∀ group ∈ groupsForGoogle groups,
    group ∈ groups := by
  intro group h
  unfold groupsForGoogle at h
  dsimp only at h
  split at h <;> exact List.mem_of_mem_filter h

/-- A line that closes the site holds such a rule of Google's. -/
theorem blocking_rule {U : Url.Unicode} {lines : List (List Char)} {number : Nat}
    (h : (blockingLines U lines).contains number = true) :
    ∃ group ∈ groupsForGoogle (parseGroups U lines), ∃ rule ∈ group.rules,
      rule.closesAll = true ∧ rule.number = number := by
  rw [List.contains_iff_mem, blockingLines, blockingRules] at h
  split at h
  · cases h
  · obtain ⟨rule, hrule, hnumber⟩ := List.mem_map.mp h
    obtain ⟨hmem, hcloses⟩ := List.mem_filter.mp hrule
    obtain ⟨group, hgroup, hin⟩ := List.mem_flatMap.mp hmem
    exact ⟨group, hgroup, rule, hin, hcloses, hnumber⟩

/-- The groups of a file whose blocking lines are emptied. -/
theorem parseGroups_emptied (lines : List (List Char)) :
    parseGroups U.toUnicode (emptiedLines (blockingLines U.toUnicode lines) lines 0) =
      (parseGroups U.toUnicode lines).map (Group.emptied (blockingLines U.toUnicode lines)) := by
  have hentries : ∀ numbered ∈ lines.zipIdx 0,
      (blockingLines U.toUnicode lines).contains numbered.2 = true →
        ∃ value, entryOf U.toUnicode numbered.1 = some (.rule .disallow value) := by
    rintro ⟨raw, number⟩ hmem hblocking
    obtain ⟨group, hgroup, rule, hrule, hcloses, rfl⟩ := blocking_rule hblocking
    have hparsed := groupsForGoogle_subset _ group hgroup
    obtain ⟨raw', hmem', hentry⟩ := (rules_numbered U.toUnicode lines).origin rule
      (List.mem_flatMap.mpr ⟨group, hparsed, hrule⟩)
    obtain rfl : raw = raw' := Option.some.inj
      ((List.mem_zipIdx_iff_getElem?.mp hmem).symm.trans (List.mem_zipIdx_iff_getElem?.mp hmem'))
    rw [beq_iff_eq.mp (Bool.and_eq_true_iff.mp hcloses).1] at hentry
    exact ⟨rule.value, hentry⟩
  have hfold := foldl_emptied 0 ⟨[], none⟩ hentries
  unfold parseGroups
  rw [← Parsing.emptied_groups, ← hfold]
  rfl

/-- A group that Google does not obey stays as it is. -/
theorem emptied_other {lines : List (List Char)} {group : Group}
    (hgroup : group ∈ parseGroups U.toUnicode lines)
    (hother : group ∉ groupsForGoogle (parseGroups U.toUnicode lines)) :
    group.emptied (blockingLines U.toUnicode lines) = group := by
  have hrules : group.rules.map (Rule.emptied (blockingLines U.toUnicode lines)) = group.rules := by
    conv_rhs => rw [← List.map_id group.rules]
    refine List.map_congr_left fun rule hrule => ?_
    unfold Rule.emptied
    split
    · next hblocking =>
        obtain ⟨obeyed, hobeyed, rule', hrule', -, hnumber⟩ := blocking_rule hblocking
        have hsame := group_of_number hgroup (groupsForGoogle_subset _ obeyed hobeyed) hrule hrule'
          hnumber.symm
        exact absurd (hsame ▸ hobeyed) hother
    · rfl
  unfold Group.emptied
  rw [hrules]

theorem googleRules_emptied (lines : List (List Char)) :
    googleRules U.toUnicode (emptiedLines (blockingLines U.toUnicode lines) lines 0) =
      (googleRules U.toUnicode lines).map (Rule.emptied (blockingLines U.toUnicode lines)) := by
  unfold googleRules
  rw [parseGroups_emptied, groupsForGoogle_map (f := Group.emptied _) fun _ => rfl,
    List.flatMap_map, List.map_flatMap]
  rfl

/-- Nothing that closes the site is left. -/
theorem blockingRules_emptied (rules : List Rule) :
    blockingRules (rules.map (Rule.emptied (blockingRules rules))) = [] := by
  by_cases hopens : rules.any Rule.opens = true
  · have hnone : blockingRules rules = [] := if_pos hopens
    have hid : rules.map (Rule.emptied []) = rules := List.map_id rules
    rw [hnone, hid, hnone]
  · have hclosed : blockingRules rules = (rules.filter Rule.closesAll).map Rule.number :=
      if_neg hopens
    have hleft : (rules.map (Rule.emptied (blockingRules rules))).filter Rule.closesAll = [] := by
      rw [List.filter_eq_nil_iff]
      intro rule' hrule' hcloses
      obtain ⟨rule, hrule, rfl⟩ := List.mem_map.mp hrule'
      unfold Rule.emptied at hcloses
      split at hcloses
      · simp [Rule.closesAll] at hcloses
      · next hnot =>
          refine hnot (List.contains_iff_mem.mpr ?_)
          rw [hclosed]
          exact List.mem_map_of_mem (List.mem_filter.mpr ⟨hrule, hcloses⟩)
    rw [blockingRules, hleft, List.map_nil, ite_self]

/-- An open path stays open. -/
theorem openAt_emptied {rules : List Rule} {path : List Char} (h : OpenAt rules path) :
    OpenAt (rules.map (Rule.emptied (blockingRules rules))) path := by
  by_cases hopens : rules.any Rule.opens = true
  · have hnone : blockingRules rules = [] := if_pos hopens
    have hid : rules.map (Rule.emptied []) = rules := List.map_id rules
    rwa [hnone, hid]
  · -- Without an `Allow` an open path is one that no rule matches.
    intro rule' hrule' hdisallow happlies
    obtain ⟨rule, hrule, rfl⟩ := List.mem_map.mp hrule'
    unfold Rule.emptied at hdisallow happlies
    split at happlies
    · cases happlies
    · next hnot =>
        rw [if_neg hnot] at hdisallow
        obtain ⟨other, hother, hallow, hother', -⟩ := h rule hrule hdisallow happlies
        refine absurd (List.any_eq_true.mpr ⟨other, hother, ?_⟩) hopens
        rw [Rule.opens, hallow, (Bool.and_eq_true_iff.mp hother').1]
        rfl

end Emptied

/-! ## The proposed lines -/

section Proposed
variable {U : Url.CaseTable}

theorem zipIdx_map_fst (lines : List (List Char)) (start : Nat) :
    (lines.zipIdx start).map Prod.fst = lines := List.zipIdx_map_fst start lines

theorem emptiedLines_nil (lines : List (List Char)) (start : Nat) :
    emptiedLines [] lines start = lines := zipIdx_map_fst lines start

theorem mem_emptiedLines {numbers : List Nat} {lines : List (List Char)} {start : Nat}
    {line : List Char} (h : line ∈ emptiedLines numbers lines start) :
    line = emptyRule ∨ line ∈ lines := by
  obtain ⟨⟨raw, number⟩, hmem, rfl⟩ := List.mem_map.mp h
  split
  · exact .inl rfl
  · exact .inr (List.fst_mem_of_mem_zipIdx hmem)

theorem oneLine_of_all {line : List Char} (h : line.all (!isBreak ·) = true) : OneLine line :=
  fun c hc => by simpa using List.all_eq_true.mp h c hc

theorem openedLines_blank {current : Option (List Char)} (h : strip (current.getD []) = []) :
    openedLines U.toUnicode current = (createdLines, [.created]) := by
  unfold openedLines
  dsimp only
  rw [h]
  rfl

theorem openedLines_filled {current : Option (List Char)} (h : strip (current.getD []) ≠ []) :
    (openedLines U.toUnicode current).1 = emptiedLines
      (blockingLines U.toUnicode (splitLines (current.getD []))) (splitLines (current.getD [])) 0 := by
  have hnot : (strip (current.getD [])).isEmpty = false := by simpa using h
  unfold openedLines
  dsimp only
  rw [hnot]
  rfl

theorem openedLines_oneLine (current : Option (List Char)) :
    ∀ line ∈ (openedLines U.toUnicode current).1, OneLine line := by
  have hrule : OneLine emptyRule := oneLine_of_all (by decide)
  intro line hline
  by_cases hblank : strip (current.getD []) = []
  · rw [openedLines_blank hblank] at hline
    rcases List.mem_cons.mp hline with rfl | hline
    · exact oneLine_of_all (by decide)
    · rw [List.mem_singleton.mp hline]
      exact hrule
  · rw [openedLines_filled hblank] at hline
    rcases mem_emptiedLines hline with rfl | hline
    · exact hrule
    · exact oneLine_of_mem hline

/-- Some line says something. -/
theorem openedLines_solid (current : Option (List Char)) :
    ∃ line ∈ (openedLines U.toUnicode current).1, isBlank line = false := by
  by_cases hblank : strip (current.getD []) = []
  · rw [openedLines_blank hblank]
    exact ⟨emptyRule, List.mem_cons_of_mem _ List.mem_cons_self, by decide⟩
  · rw [openedLines_filled hblank]
    have hsolid : ∃ c ∈ current.getD [], Text.isSpace c = false := by
      by_contra hnone
      refine hblank (strip_eq_nil.mpr fun c hc => ?_)
      by_contra hspace
      exact hnone ⟨c, hc, Bool.eq_false_iff.mpr hspace⟩
    obtain ⟨c, hc, hspace⟩ := hsolid
    have hbreak : isBreak c = false := by
      by_contra hbreak
      rw [isSpace_of_isBreak (Bool.not_eq_false _ ▸ hbreak)] at hspace
      cases hspace
    obtain ⟨line, hline, hmem⟩ := exists_line hc hbreak
    have hsays : isBlank line = false := by
      refine Bool.eq_false_iff.mpr fun hall => ?_
      rw [isBlank_iff.mp hall c hmem] at hspace
      cases hspace
    obtain ⟨number, hnumber⟩ := List.getElem?_of_mem hline
    have hzip : (line, number) ∈ (splitLines (current.getD [])).zipIdx :=
      List.mem_zipIdx_iff_getElem?.mpr hnumber
    have hin := List.mem_map_of_mem (f := fun numbered : List Char × Nat =>
      if (blockingLines U.toUnicode (splitLines (current.getD []))).contains numbered.2
        then emptyRule else numbered.1) hzip
    dsimp only at hin
    split at hin
    · exact ⟨emptyRule, hin, by decide⟩
    · exact ⟨line, hin, hsays⟩

theorem entryOf_createdAgent (U : Url.CaseTable) :
    entryOf U.toUnicode "User-agent: *".toList = some (.userAgent ['*']) := by
  have hname : U.lower "User-agent".toList = "user-agent".toList := U.lower_plain (by decide)
  have hvalue : U.lower ['*'] = ['*'] := U.lower_plain (by decide)
  have hline : nameAndValue U.toUnicode "User-agent: *".toList =
      some (U.lower "User-agent".toList, ['*']) := rfl
  unfold entryOf
  rw [hline, hname]
  dsimp only
  rw [if_pos rfl, hvalue]
  rfl

theorem parseGroups_created (U : Url.CaseTable) :
    parseGroups U.toUnicode createdLines = [⟨[['*']], [⟨1, .disallow, []⟩]⟩] := by
  have hzip : createdLines.zipIdx = [("User-agent: *".toList, 0), (emptyRule, 1)] := rfl
  unfold parseGroups
  rw [hzip, List.foldl_cons, List.foldl_cons, List.foldl_nil]
  unfold addLine
  dsimp only
  rw [entryOf_createdAgent, entryOf_emptyRule]
  rfl

theorem parseGroups_blank {lines : List (List Char)} (h : ∀ line ∈ lines, isBlank line = true) :
    parseGroups U.toUnicode lines = [] := by
  unfold parseGroups
  rw [foldl_silent fun line hline => entryOf_blank (h line hline)]
  rfl

theorem blank_lines {text : List Char} (h : strip text = []) :
    ∀ line ∈ splitLines text, isBlank line = true := fun _ hline =>
  isBlank_iff.mpr fun c hc => strip_eq_nil.mp h c (mem_of_mem_line hline hc)

/-- The rules of the opened lines do not close the site. -/
theorem blockingLines_opened (current : Option (List Char)) :
    blockingLines U.toUnicode (openedLines U.toUnicode current).1 = [] := by
  by_cases hblank : strip (current.getD []) = []
  · rw [openedLines_blank hblank, blockingLines, googleRules, parseGroups_created]
    decide
  · rw [openedLines_filled hblank, blockingLines, googleRules_emptied]
    exact blockingRules_emptied _

/-- What was open stays open. -/
theorem openAt_opened {current : Option (List Char)} {path : List Char}
    (h : OpenAt (googleRules U.toUnicode (splitLines (current.getD []))) path) :
    OpenAt (googleRules U.toUnicode (openedLines U.toUnicode current).1) path := by
  by_cases hblank : strip (current.getD []) = []
  · have hrules : googleRules U.toUnicode createdLines = [⟨1, .disallow, []⟩] := by
      rw [googleRules, parseGroups_created]
      decide
    rw [openedLines_blank hblank, hrules]
    intro rule hrule _ happlies
    rw [List.mem_singleton.mp hrule] at happlies
    cases happlies
  · rw [openedLines_filled hblank, googleRules_emptied]
    exact openAt_emptied h

/-- Groups that Google does not obey are as they were. -/
theorem groups_opened {current : Option (List Char)} {i : Nat} {group : Group}
    (hi : (parseGroups U.toUnicode (splitLines (current.getD [])))[i]? = some group)
    (hother : group ∉ groupsForGoogle (parseGroups U.toUnicode (splitLines (current.getD [])))) :
    (parseGroups U.toUnicode (openedLines U.toUnicode current).1)[i]? = some group := by
  by_cases hblank : strip (current.getD []) = []
  · rw [parseGroups_blank (blank_lines hblank)] at hi
    cases hi
  · rw [openedLines_filled hblank, parseGroups_emptied, List.getElem?_map, hi, Option.map_some,
      emptied_other (List.mem_of_getElem? hi) hother]

theorem sitemapLine_ne_nil (url : List Char) : sitemapLine url ≠ [] :=
  List.append_ne_nil_of_left_ne_nil (by decide) url

theorem isSitemapLine_sitemapLine {url : List Char} (h : strip url = url) :
    isSitemapLine U.toUnicode url (sitemapLine url) = true := by
  have hascii : "Sitemap: ".toList.all (fun c => c.toNat < 128) = true := by decide
  obtain ⟨t, hlower, -⟩ := U.lower_ascii url hascii
  have hplain : ∀ c ∈ "Sitemap".toList, decide (c ≠ ':') = true := List.all_eq_true.mp (by decide)
  have hname : (sitemapLine url).dropWhile (· ≠ ':') = ':' :: ' ' :: url := by
    have hsplit : sitemapLine url = "Sitemap".toList ++ ':' :: ' ' :: url := rfl
    rw [hsplit, List.dropWhile_append_of_pos hplain, List.dropWhile_cons_of_neg (by decide)]
  have hstrip : strip (' ' :: url) = strip url := by
    rw [strip, List.dropWhile_cons_of_pos (by decide), strip]
  have hpre : "sitemap:".toList.isPrefixOf (U.lower (sitemapLine url)) = true := by
    have hsplit : sitemapLine url = "Sitemap: ".toList ++ url := rfl
    rw [hsplit, hlower]
    have hlow : "Sitemap: ".toList.map Char.toLower = "sitemap:".toList ++ [' '] := by decide
    rw [hlow, List.append_assoc, List.isPrefixOf_iff_prefix]
    exact List.prefix_append _ _
  rw [isSitemapLine, hpre, Bool.true_and, hname, List.drop_succ_cons, List.drop_zero, hstrip, h]
  exact beq_self_eq_true url

theorem isSitemapLine_nonempty {url line : List Char}
    (h : isSitemapLine U.toUnicode url line = true) : line ≠ [] := by
  rintro rfl
  unfold isSitemapLine at h
  rw [U.lower_nil] at h
  cases h

/-- What `withSitemap` leaves: the lines, or the trimmed lines with a `Sitemap` line. -/
theorem withSitemap_cases (sitemapUrl : Option (List Char))
    (opened : List (List Char) × List RobotsChange) :
    (withSitemap U.toUnicode sitemapUrl opened = opened ∧ (sitemapUrl.getD [] = [] ∨
      ∃ line ∈ opened.1, isSitemapLine U.toUnicode (sitemapUrl.getD []) line = true)) ∨
    (withSitemap U.toUnicode sitemapUrl opened).1 =
      trimmed opened.1 ++ [[], sitemapLine (sitemapUrl.getD [])] := by
  unfold withSitemap
  dsimp only
  split
  · exact .inr rfl
  · next hnot =>
      refine .inl ⟨rfl, ?_⟩
      by_cases hurl : sitemapUrl.getD [] = []
      · exact .inl hurl
      · refine .inr (List.any_eq_true.mp ?_)
        by_contra hnone
        refine hnot ?_
        rw [Bool.eq_false_iff.mpr hnone]
        simpa using hurl

/-- The lines of the proposed file. -/
def proposedLines (U : Url.Unicode) (current sitemapUrl : Option (List Char)) :
    List (List Char) :=
  (withSitemap U sitemapUrl (openedLines U current)).1.rdropWhile List.isEmpty

variable {current sitemapUrl : Option (List Char)}

variable (current) in
theorem withSitemap_oneLine (hurl : OneLine (sitemapUrl.getD [])) :
    ∀ line ∈ (withSitemap U.toUnicode sitemapUrl (openedLines U.toUnicode current)).1,
      OneLine line := by
  intro line hline
  rcases withSitemap_cases (U := U) sitemapUrl (openedLines U.toUnicode current) with
    ⟨hsame, -⟩ | hadded
  · rw [hsame] at hline
    exact openedLines_oneLine current line hline
  · rw [hadded] at hline
    rcases List.mem_append.mp hline with hline | hline
    · exact openedLines_oneLine current line ((List.rdropWhile_prefix _ _).subset hline)
    · rcases List.mem_cons.mp hline with rfl | hline
      · exact oneLine_of_all rfl
      · rw [List.mem_singleton.mp hline]
        intro c hc
        rcases List.mem_append.mp hc with hc | hc
        · exact @oneLine_of_all "Sitemap: ".toList (by decide) c hc
        · exact hurl c hc

/-- Lines that are not empty are not dropped. -/
theorem mem_rdropWhile {lines : List (List Char)} {line : List Char} (h : line ∈ lines)
    (hline : line ≠ []) : line ∈ lines.rdropWhile List.isEmpty := by
  rw [← List.rdropWhile_append_rtakeWhile (p := List.isEmpty) (l := lines)] at h
  rcases List.mem_append.mp h with h | h
  · exact h
  · exact absurd (List.isEmpty_iff.mp (List.mem_rtakeWhile_imp h)) hline

variable (current sitemapUrl) in
/-- The opened lines without blank lines at the end begin the proposed file. -/
theorem proposedLines_keeps : ∃ kept blanks,
    (openedLines U.toUnicode current).1 = kept ++ blanks ∧
      (∀ line ∈ blanks, isBlank line = true) ∧
      kept <+: proposedLines U.toUnicode current sitemapUrl := by
  unfold proposedLines
  rcases withSitemap_cases (U := U) sitemapUrl (openedLines U.toUnicode current) with
    ⟨hsame, -⟩ | hadded
  · rw [hsame]
    exact ⟨_, _, List.rdropWhile_append_rtakeWhile.symm,
      fun line hline => isBlank_of_isEmpty (List.mem_rtakeWhile_imp hline), List.prefix_rfl⟩
  · have hassoc : trimmed (openedLines U.toUnicode current).1 ++
        [[], sitemapLine (sitemapUrl.getD [])] =
        (trimmed (openedLines U.toUnicode current).1 ++ [[]]) ++
          [sitemapLine (sitemapUrl.getD [])] := by simp
    rw [hadded, hassoc, List.rdropWhile_concat_neg _ _ _ fun hempty =>
      sitemapLine_ne_nil _ (List.isEmpty_iff.mp hempty), ← hassoc]
    exact ⟨trimmed (openedLines U.toUnicode current).1, _,
      List.rdropWhile_append_rtakeWhile.symm,
      fun line hline => List.mem_rtakeWhile_imp hline, List.prefix_append _ _⟩

variable (current sitemapUrl) in
theorem proposedLines_solid : ∃ line ∈ proposedLines U.toUnicode current sitemapUrl,
    isBlank line = false := by
  obtain ⟨line, hline, hsays⟩ := openedLines_solid (U := U) current
  obtain ⟨kept, blanks, hsplit, hblanks, hprefix⟩ :=
    proposedLines_keeps (U := U) current sitemapUrl
  rw [hsplit] at hline
  rcases List.mem_append.mp hline with hline | hline
  · exact ⟨line, hprefix.subset hline, hsays⟩
  · rw [hblanks line hline] at hsays
    cases hsays

variable (current) in
/-- The proposed file is read as its lines. -/
theorem splitLines_improved (hurl : OneLine (sitemapUrl.getD [])) :
    splitLines (improveRobots U.toUnicode current sitemapUrl).1 =
      proposedLines U.toUnicode current sitemapUrl := by
  refine splitLines_written (withSitemap_oneLine current hurl) ?_
  obtain ⟨line, hline, -⟩ := proposedLines_solid (U := U) current sitemapUrl
  exact List.ne_nil_of_mem hline

/-- The proposed file has the groups of the opened lines. -/
theorem parseGroups_proposed : parseGroups U.toUnicode
    (proposedLines U.toUnicode current sitemapUrl) =
      parseGroups U.toUnicode (openedLines U.toUnicode current).1 := by
  unfold proposedLines
  rw [parseGroups_rdropWhile fun line hline => entryOf_blank (isBlank_of_isEmpty hline)]
  rcases withSitemap_cases (U := U) sitemapUrl (openedLines U.toUnicode current) with
    ⟨hsame, -⟩ | hadded
  · rw [hsame]
  · rw [hadded, parseGroups_append, trimmed, parseGroups_rdropWhile fun line hline =>
      entryOf_blank hline]
    intro line hline
    rcases List.mem_cons.mp hline with rfl | hline
    · exact entryOf_blank rfl
    · rw [List.mem_singleton.mp hline]
      exact entryOf_sitemapLine U _

theorem googleRules_proposed : googleRules U.toUnicode
    (proposedLines U.toUnicode current sitemapUrl) =
      googleRules U.toUnicode (openedLines U.toUnicode current).1 := by
  rw [googleRules, googleRules, parseGroups_proposed]

theorem blockingLines_proposed :
    blockingLines U.toUnicode (proposedLines U.toUnicode current sitemapUrl) = [] := by
  rw [blockingLines, googleRules_proposed]
  exact blockingLines_opened current

/-- The proposed file needs no change. -/
theorem improveRobots_idempotent (hurl : OneLine (sitemapUrl.getD []))
    (hstrip : strip (sitemapUrl.getD []) = sitemapUrl.getD []) :
    improveRobots U.toUnicode (some (improveRobots U.toUnicode current sitemapUrl).1) sitemapUrl =
      ((improveRobots U.toUnicode current sitemapUrl).1, []) := by
  have hlines := splitLines_improved (U := U) current hurl
  have hnotBlank : strip (improveRobots U.toUnicode current sitemapUrl).1 ≠ [] := by
    intro hblank
    obtain ⟨line, hline, hsays⟩ := proposedLines_solid (U := U) current sitemapUrl
    rw [blank_lines hblank line (hlines ▸ hline)] at hsays
    cases hsays
  have hopened : openedLines U.toUnicode (some (improveRobots U.toUnicode current sitemapUrl).1) =
      (proposedLines U.toUnicode current sitemapUrl, []) := by
    unfold openedLines
    dsimp only [Option.getD_some]
    rw [if_neg (by simpa using hnotBlank), hlines, withoutBlockAll, blockingLines_proposed,
      emptiedLines_nil]
    rfl
  have hkept : withSitemap U.toUnicode sitemapUrl
      (proposedLines U.toUnicode current sitemapUrl, []) =
      (proposedLines U.toUnicode current sitemapUrl, []) := by
    unfold withSitemap
    dsimp only
    rw [if_neg]
    intro hadds
    obtain ⟨hne, hnone⟩ := Bool.and_eq_true_iff.mp hadds
    rw [Bool.not_eq_true', Bool.eq_false_iff] at hnone
    refine hnone (List.any_eq_true.mpr ?_)
    unfold proposedLines
    rcases withSitemap_cases (U := U) sitemapUrl (openedLines U.toUnicode current) with
      ⟨hsame, hempty | ⟨line, hline, hsitemap⟩⟩ | hadded
    · rw [hempty] at hne
      cases hne
    · rw [hsame]
      exact ⟨line, mem_rdropWhile hline (isSitemapLine_nonempty hsitemap), hsitemap⟩
    · rw [hadded]
      refine ⟨_, mem_rdropWhile (List.mem_append_right _
        (List.mem_cons_of_mem _ List.mem_cons_self)) (sitemapLine_ne_nil _),
        isSitemapLine_sitemapLine hstrip⟩
  have honeLine := withSitemap_oneLine (U := U) current hurl
  have hagain : ∀ line ∈ proposedLines U.toUnicode current sitemapUrl, OneLine line :=
    fun line hline => honeLine line ((List.rdropWhile_prefix _ _).subset hline)
  unfold improveRobots at hopened ⊢
  dsimp only at hopened ⊢
  rw [hopened, hkept, rstripBreaks_join hagain, rstripBreaks_join honeLine, proposedLines,
    List.rdropWhile_idempotent]

/-- The proposed file needs no change and does not close the site; what was open to Google
stays open, what other robots obey stays as it is, and so do the lines but for the emptied
ones and blank lines at the end. -/
theorem improveRobots_safe (U : Url.CaseTable) (current sitemapUrl : Option (List Char))
    (hsitemap : ∀ url, sitemapUrl = some url → strip url = url ∧ OneLine url) :
    improveRobots U.toUnicode (some (improveRobots U.toUnicode current sitemapUrl).1) sitemapUrl =
      ((improveRobots U.toUnicode current sitemapUrl).1, []) ∧
    blocksEverything U.toUnicode (some (improveRobots U.toUnicode current sitemapUrl).1) = false ∧
    (∀ url, googleAllows U.toUnicode (splitLines (current.getD [])) url = some true →
      googleAllows U.toUnicode
        (splitLines (improveRobots U.toUnicode current sitemapUrl).1) url = some true) ∧
    (∀ (i : Nat) (group : Group),
      (parseGroups U.toUnicode (splitLines (current.getD [])))[i]? = some group →
      group ∉ groupsForGoogle (parseGroups U.toUnicode (splitLines (current.getD []))) →
      (parseGroups U.toUnicode
        (splitLines (improveRobots U.toUnicode current sitemapUrl).1))[i]? = some group) ∧
    ∃ kept blanks, emptiedLines (blockingLines U.toUnicode (splitLines (current.getD [])))
        (splitLines (current.getD [])) 0 = kept ++ blanks ∧
      (∀ line ∈ blanks, isBlank line = true) ∧
      kept <+: splitLines (improveRobots U.toUnicode current sitemapUrl).1 := by
  obtain ⟨hstrip, hurl⟩ : strip (sitemapUrl.getD []) = sitemapUrl.getD [] ∧
      OneLine (sitemapUrl.getD []) := by
    cases sitemapUrl with
    | none => exact ⟨rfl, fun _ hc => absurd hc List.not_mem_nil⟩
    | some url => exact hsitemap url rfl
  have hlines := splitLines_improved (U := U) current hurl
  refine ⟨improveRobots_idempotent hurl hstrip, ?_, fun url hallows => ?_, ?_, ?_⟩
  · rw [blocksEverything, Option.getD_some, hlines, blockingLines_proposed]
    rfl
  · rw [hlines]
    obtain ⟨parts, hparts, hallowed⟩ := Option.map_eq_some_iff.mp hallows
    refine Option.map_eq_some_iff.mpr ⟨parts, hparts, ?_⟩
    rw [allowsPath_iff, googleRules_proposed]
    exact openAt_opened (allowsPath_iff.mp hallowed)
  · intro i group hi hother
    rw [hlines, parseGroups_proposed]
    exact groups_opened hi hother
  · rw [hlines]
    by_cases hblank : strip (current.getD []) = []
    · -- A blank file keeps none of its lines.
      have hblanks := blank_lines hblank
      refine ⟨[], splitLines (current.getD []), ?_, hblanks, List.nil_prefix⟩
      rw [blockingLines, googleRules, parseGroups_blank hblanks]
      exact emptiedLines_nil _ 0
    · rw [← openedLines_filled hblank]
      exact proposedLines_keeps _ _

end Proposed

set_option maxRecDepth 20000 in
theorem improveRobots_safe_shop :
    (improveRobots Url.asciiCase.toUnicode (some "User-agent: *\r\nDisallow: / # shut\r\n".toList)
      (some "https://shop.example/s.xml".toList)).1 =
        "User-agent: *\nDisallow:\n\nSitemap: https://shop.example/s.xml\n".toList ∧
    improveRobots Url.asciiCase.toUnicode
      (some (improveRobots Url.asciiCase.toUnicode
        (some "User-agent: *\r\nDisallow: / # shut\r\n".toList)
        (some "https://shop.example/s.xml".toList)).1) (some "https://shop.example/s.xml".toList) =
      ((improveRobots Url.asciiCase.toUnicode
        (some "User-agent: *\r\nDisallow: / # shut\r\n".toList)
        (some "https://shop.example/s.xml".toList)).1, []) := by
  refine ⟨by decide +kernel, (improveRobots_safe Url.asciiCase _ _ fun url hurl => ?_).1⟩
  obtain rfl := Option.some.inj hurl
  exact ⟨by decide, oneLine_of_all (by decide)⟩

end SeoAgent.Scan
