import Mathlib.Data.List.Nodup
import Mathlib.Data.List.Perm.Subperm
import SeoAgent.Targets.Keywords

/-!
# What a list of target keywords keeps

`KeywordsOk` is what is meant to hold of the stored words: each is normalised,
no two are the same, they are at most `maxWords`, the confirmed ones at most
`maxConfirmed`, and the checks of each are in order and at most `keptChecks`.

Every change of the record keeps it but one. `make_room` forgets dismissed words
only, so a word that is added to a list with `maxWords` words that are not
dismissed comes on top of them; that is `Overfull`.

## Main results

* `length_makeRoom` — how many words room is made for.
* `addKeyword_of_overfull` — what happens without room.
* `KeywordsOk.addKeyword`, `KeywordsOk.setStatus`, `KeywordsOk.proposeTitle`,
  `KeywordsOk.keepSuggestions`, `KeywordsOk.saveChecks` — the changes.
-/

namespace SeoAgent.Targets

variable {normalizeQuery : String → String} {keywords : List TargetKeyword} {word : String}
  {f : TargetKeyword → TargetKeyword} {item : TargetKeyword} {current new : TargetKeywordSet}
  {now : Int}

/-! ## The invariant -/

/-- The checks of a word are in order of time and not too many. -/
def ChecksOk (checks : List RankCheck) : Prop :=
  checks.Pairwise (fun a b => a.checkedAt < b.checkedAt) ∧ checks.length ≤ keptChecks

variable (normalizeQuery) in
/-- What the words of a site keep. -/
structure KeywordsOk (keywords : List TargetKeyword) : Prop where
  normalised : ∀ item ∈ keywords, ∃ raw, item.keyword = normalizeQuery raw
  distinct : (keywords.map TargetKeyword.keyword).Nodup
  few : keywords.length ≤ maxWords
  confirmed : confirmedCount keywords ≤ maxConfirmed
  checks : ∀ item ∈ keywords, ChecksOk item.checks

theorem KeywordsOk.nil : KeywordsOk normalizeQuery [] :=
  ⟨fun _ h => absurd h List.not_mem_nil, List.nodup_nil, Nat.zero_le _, Nat.zero_le _,
    fun _ h => absurd h List.not_mem_nil⟩

/-- Words may be left out. -/
theorem KeywordsOk.sublist {fewer : List TargetKeyword} (h : KeywordsOk normalizeQuery keywords)
    (hsub : fewer.Sublist keywords) : KeywordsOk normalizeQuery fewer where
  normalised := fun item hitem => h.normalised item (hsub.subset hitem)
  distinct := h.distinct.sublist (hsub.map _)
  few := Nat.le_trans hsub.length_le h.few
  confirmed := Nat.le_trans (hsub.countP_le) h.confirmed
  checks := fun item hitem => h.checks item (hsub.subset hitem)

/-- With distinct words an entry is known by its word. -/
theorem eq_of_keyword (h : (keywords.map TargetKeyword.keyword).Nodup) {a b : TargetKeyword}
    (ha : a ∈ keywords) (hb : b ∈ keywords) (hab : a.keyword = b.keyword) : a = b :=
  List.inj_on_of_nodup_map h ha hb hab

/-! ## Making room -/

def notDismissed (keywords : List TargetKeyword) : Nat :=
  keywords.countP fun item => item.status ≠ .dismissed

theorem makeRoom_sublist (wanted : Nat) : (makeRoom keywords wanted).Sublist keywords := by
  unfold makeRoom
  dsimp only
  split
  · exact List.Sublist.refl _
  · exact List.filter_sublist

/-- Room is made for as many words as there are places and dismissed words. -/
theorem length_makeRoom (h : (keywords.map TargetKeyword.keyword).Nodup) {wanted : Nat}
    (hroom : notDismissed keywords + wanted ≤ maxWords) :
    (makeRoom keywords wanted).length + wanted ≤ maxWords := by
  unfold makeRoom
  dsimp only
  split
  · next hexcess => omega
  · next hexcess =>
      let dismissed := (keywords.filter fun item => item.status = .dismissed).insertionSort
        fun a b => a.addedAt ≤ b.addedAt
      let gone := dismissed.take (keywords.length + wanted - maxWords)
      have hperm : dismissed.Perm (keywords.filter fun item => item.status = .dismissed) :=
        List.perm_insertionSort _ _
      have hgone : ∀ item ∈ gone, item ∈ keywords := fun item hitem =>
        List.mem_of_mem_filter (hperm.mem_iff.mp (List.mem_of_mem_take hitem))
      -- The words that are forgotten are those of the entries that go.
      have hforgotten : (keywords.filter fun item => item.keyword ∈ gone.map TargetKeyword.keyword).Perm
          gone := by
        have hnodup : gone.Nodup := (hperm.nodup_iff.mpr (h.of_map.filter _)).sublist
          (List.take_sublist _ _)
        refine (List.perm_ext_iff_of_nodup (h.of_map.filter _) hnodup).mpr fun item => ?_
        rw [List.mem_filter, decide_eq_true_eq, List.mem_map]
        constructor
        · rintro ⟨hitem, d, hd, hword⟩
          rwa [eq_of_keyword h hitem (hgone d hd) hword.symm]
        · intro hitem
          exact ⟨hgone item hitem, item, hitem, rfl⟩
      have hlength : keywords.length = gone.length +
          (keywords.filter fun item => item.keyword ∉ gone.map TargetKeyword.keyword).length := by
        rw [← hforgotten.length_eq, List.length_eq_countP_add_countP
          (p := fun item : TargetKeyword => decide (item.keyword ∈ gone.map TargetKeyword.keyword)),
          List.countP_eq_length_filter, List.countP_eq_length_filter]
        simp only [decide_not, Bool.not_eq_true, decide_eq_false_iff_not]
      have hdismissed : keywords.length = dismissed.length + notDismissed keywords := by
        rw [hperm.length_eq, List.length_eq_countP_add_countP
          (p := fun item : TargetKeyword => decide (item.status = .dismissed)), notDismissed,
          List.countP_eq_length_filter]
        simp only [ne_eq, decide_not, Bool.not_eq_true, decide_eq_false_iff_not]
      have htaken : gone.length = min (keywords.length + wanted - maxWords) dismissed.length :=
        List.length_take
      change (keywords.filter fun item => item.keyword ∉ gone.map TargetKeyword.keyword).length +
        wanted ≤ maxWords
      omega

/-- A word that is not dismissed is never forgotten. -/
theorem notDismissed_makeRoom (h : (keywords.map TargetKeyword.keyword).Nodup) (wanted : Nat) :
    notDismissed (makeRoom keywords wanted) = notDismissed keywords := by
  unfold makeRoom
  dsimp only
  split
  · rfl
  · unfold notDismissed
    rw [List.countP_filter]
    refine List.countP_congr fun item hitem => ?_
    rw [Bool.and_eq_true]
    refine ⟨And.left, fun hstatus => ⟨hstatus, decide_eq_true fun hgone => ?_⟩⟩
    obtain ⟨d, hd, hword⟩ := List.mem_map.mp hgone
    obtain ⟨hin, hdismissed⟩ :=
      List.mem_filter.mp ((List.perm_insertionSort _ _).mem_iff.mp (List.mem_of_mem_take hd))
    rw [eq_of_keyword h hin hitem hword] at hdismissed
    exact of_decide_eq_true hstatus (of_decide_eq_true hdismissed)

/-! ## One word's entry -/

theorem updateWord_of_not_mem (h : word ∉ keywords.map TargetKeyword.keyword) :
    updateWord keywords word f = keywords := by
  unfold updateWord
  conv_rhs => rw [← List.map_id keywords]
  refine List.map_congr_left fun x hx => ?_
  rw [if_neg fun hxw => h (List.mem_map.mpr ⟨x, hx, hxw⟩), id]

/-- The entry of a word is one. -/
theorem countP_updateWord (p : TargetKeyword → Bool)
    (h : (keywords.map TargetKeyword.keyword).Nodup) (hitem : item ∈ keywords) :
    (updateWord keywords item.keyword f).countP p + (p item).toNat =
      keywords.countP p + (p (f item)).toNat := by
  induction keywords with
  | nil => exact absurd hitem List.not_mem_nil
  | cons first rest ih =>
      rw [List.map_cons, List.nodup_cons] at h
      rcases List.mem_cons.mp hitem with rfl | hrest
      · have hsame : updateWord (item :: rest) item.keyword f = f item :: rest := by
          have := updateWord_of_not_mem (f := f) h.1
          simp only [updateWord, List.map_cons, if_pos] at this ⊢
          rw [this]
        rw [hsame, List.countP_cons, List.countP_cons]
        cases p item <;> cases p (f item) <;> simp
      · have hne : first.keyword ≠ item.keyword := fun heq =>
          h.1 (heq ▸ List.mem_map_of_mem hrest)
        have hcons : updateWord (first :: rest) item.keyword f =
            first :: updateWord rest item.keyword f := by
          simp only [updateWord, List.map_cons, if_neg hne]
        have := ih h.2 hrest
        rw [hcons, List.countP_cons, List.countP_cons]
        omega

theorem keyword_updateWord (h : (keywords.map TargetKeyword.keyword).Nodup)
    (hitem : item ∈ keywords) (hf : (f item).keyword = item.keyword) :
    (updateWord keywords item.keyword f).map TargetKeyword.keyword =
      keywords.map TargetKeyword.keyword := by
  unfold updateWord
  rw [List.map_map]
  refine List.map_congr_left fun x hx => ?_
  rw [Function.comp_apply]
  split
  · next hxw => rw [eq_of_keyword h hx hitem hxw, hf]
  · rfl

theorem mem_updateWord (h : (keywords.map TargetKeyword.keyword).Nodup) (hitem : item ∈ keywords)
    {x : TargetKeyword} (hx : x ∈ updateWord keywords item.keyword f) :
    x = f item ∨ x ∈ keywords := by
  obtain ⟨y, hy, rfl⟩ := List.mem_map.mp hx
  split
  · next hyw =>
      rw [eq_of_keyword h hy hitem hyw]
      exact .inl rfl
  · exact .inr hy

/-- An entry may change, its word and its checks apart; it becomes confirmed only
while there is room for that. -/
theorem KeywordsOk.updateWord (h : KeywordsOk normalizeQuery keywords) (hitem : item ∈ keywords)
    (hword : (f item).keyword = item.keyword) (hchecks : (f item).checks = item.checks)
    (hroom : isConfirmed (f item) → isConfirmed item ∨ confirmedCount keywords < maxConfirmed) :
    KeywordsOk normalizeQuery (updateWord keywords item.keyword f) where
  normalised := fun x hx => by
    rcases mem_updateWord h.distinct hitem hx with rfl | hold
    · rw [hword]
      exact h.normalised item hitem
    · exact h.normalised x hold
  distinct := by
    rw [keyword_updateWord h.distinct hitem hword]
    exact h.distinct
  few := by
    rw [Targets.updateWord, List.length_map]
    exact h.few
  confirmed := by
    have hcount := countP_updateWord (f := f) isConfirmed h.distinct hitem
    have hfew := h.confirmed
    unfold confirmedCount at *
    cases hnew : isConfirmed (f item) with
    | false => simp only [hnew, Bool.toNat_false] at hcount; omega
    | true =>
        rcases hroom hnew with hold | hless
        · simp only [hnew, hold, Bool.toNat_true] at hcount; omega
        · simp only [hnew, Bool.toNat_true] at hcount; omega
  checks := fun x hx => by
    rcases mem_updateWord h.distinct hitem hx with rfl | hold
    · rw [hchecks]
      exact h.checks item hitem
    · exact h.checks x hold

/-! ## The words of an answer -/

variable (normalizeQuery) in
/-- What the words of an answer keep. -/
structure FoundOk (found : List KeywordSuggestion) : Prop where
  normalised : ∀ item ∈ found, ∃ raw, item.keyword = normalizeQuery raw
  distinct : (found.map KeywordSuggestion.keyword).Nodup

theorem FoundOk.keepItem {known : String → Option String} {clean : String → String}
    {kept : List KeywordSuggestion} (h : FoundOk normalizeQuery kept)
    (payload : Option KeywordSuggestionPayload) :
    FoundOk normalizeQuery (keepItem normalizeQuery known clean kept payload) := by
  cases payload with
  | none => exact h
  | some given =>
      unfold Targets.keepItem
      dsimp only
      split
      · exact h
      · split
        · exact h
        · next hnew =>
            split
            · exact h
            · have hfresh : normalizeQuery given.keyword ∉ kept.map KeywordSuggestion.keyword :=
                fun hmem => hnew (.inr (.inr hmem))
              constructor
              · intro x hx
                rcases List.mem_append.mp hx with hold | hnow
                · exact h.normalised x hold
                · rw [List.mem_singleton.mp hnow]
                  exact ⟨given.keyword, rfl⟩
              · rw [List.map_append]
                exact h.distinct.append (List.nodup_singleton _) fun w hw hw' => by
                  rw [List.map_singleton, List.mem_singleton] at hw'
                  rw [hw'] at hw
                  exact hfresh hw

/-- The answer that is used has no word twice, and every word of it is normalised. -/
theorem parseKeywordAnswer_ok (known : String → Option String) (clean : String → String)
    (items : List (Option KeywordSuggestionPayload)) :
    FoundOk normalizeQuery (parseKeywordAnswer normalizeQuery known clean items) := by
  suffices ∀ kept, FoundOk normalizeQuery kept →
      FoundOk normalizeQuery ((items.take maxAnswerItems).foldl
        (keepItem normalizeQuery known clean) kept) from
    this [] ⟨fun _ h => absurd h List.not_mem_nil, List.nodup_nil⟩
  intro kept hkept
  induction items.take maxAnswerItems generalizing kept with
  | nil => exact hkept
  | cons payload _ ih => exact ih _ (hkept.keepItem payload)

/-! ## The requests -/

variable (normalizeQuery) in
/-- The request adds a word that is not there, and the words that are not dismissed
take every place already. -/
def Overfull (keyword : String) (current : TargetKeywordSet) : Prop :=
  let word := normalizeQuery keyword
  (word ≠ "" ∧ word.length ≤ 80) ∧ word ∉ current.keywords.map TargetKeyword.keyword ∧
    confirmedCount current.keywords < maxConfirmed ∧ maxWords ≤ notDismissed current.keywords

instance (keyword : String) (current : TargetKeywordSet) :
    Decidable (Overfull normalizeQuery keyword current) :=
  inferInstanceAs (Decidable ((_ ∧ _) ∧ _ ∧ _ ∧ _))

theorem find?_keyword {found : TargetKeyword}
    (h : (keywords.find? fun entry => entry.keyword = word) = some found) :
    found ∈ keywords ∧ found.keyword = word :=
  ⟨List.mem_of_find?_eq_some h, of_decide_eq_true (List.find?_some h :)⟩

theorem not_mem_of_find?_none (h : (keywords.find? fun entry => entry.keyword = word) = none) :
    word ∉ keywords.map TargetKeyword.keyword := by
  intro hmem
  obtain ⟨x, hx, hxw⟩ := List.mem_map.mp hmem
  exact absurd hxw (of_decide_eq_false (Bool.eq_false_iff.mpr (List.find?_eq_none.mp h x hx)))

/-- A word on top of a list that has room. -/
theorem KeywordsOk.append_new (h : KeywordsOk normalizeQuery keywords)
    (hnormal : ∃ raw, item.keyword = normalizeQuery raw)
    (hnew : item.keyword ∉ keywords.map TargetKeyword.keyword) (hchecks : item.checks = [])
    (hroom : keywords.length < maxWords) (hconfirmed : confirmedCount keywords < maxConfirmed) :
    KeywordsOk normalizeQuery (keywords ++ [item]) where
  normalised := fun x hx => by
    rcases List.mem_append.mp hx with hold | hnow
    · exact h.normalised x hold
    · rw [List.mem_singleton.mp hnow]
      exact hnormal
  distinct := by
    rw [List.map_append]
    exact h.distinct.append (List.nodup_singleton _) fun w hw hw' => by
      rw [List.map_singleton, List.mem_singleton] at hw'
      exact hnew (hw' ▸ hw)
  few := by
    rw [List.length_append, List.length_singleton]
    omega
  confirmed := by
    have hone : [item].countP isConfirmed ≤ 1 := List.countP_le_length
    unfold confirmedCount at *
    rw [List.countP_append]
    omega
  checks := fun x hx => by
    rcases List.mem_append.mp hx with hold | hnow
    · exact h.checks x hold
    · rw [List.mem_singleton.mp hnow, hchecks]
      exact ⟨List.Pairwise.nil, Nat.zero_le _⟩

theorem KeywordsOk.addKeyword {keyword url : String}
    (h : KeywordsOk normalizeQuery current.keywords)
    (hroom : ¬ Overfull normalizeQuery keyword current)
    (hadd : addKeyword normalizeQuery keyword url now current = .ok new) :
    KeywordsOk normalizeQuery new.keywords := by
  unfold Targets.addKeyword at hadd
  dsimp only at hadd
  split at hadd
  · cases hadd
  · next hsize =>
    split at hadd
    · next existing hfind =>
        obtain ⟨hmem, hword⟩ := find?_keyword hfind
        split at hadd
        · cases hadd
        · next hleft =>
            cases hadd
            rw [← hword]
            refine h.updateWord hmem rfl rfl fun _ => ?_
            by_cases hstatus : existing.status = .confirmed
            · exact .inl (decide_eq_true hstatus)
            · exact .inr (by
                by_contra hfull
                exact hleft ⟨hstatus, by omega⟩)
    · next hfind =>
        have hnew : normalizeQuery keyword ∉ current.keywords.map TargetKeyword.keyword :=
          not_mem_of_find?_none hfind
        split at hadd
        · cases hadd
        · next hleft =>
            cases hadd
            have hplace : notDismissed current.keywords < maxWords := by
              by_contra hfull
              have hshort : normalizeQuery keyword ≠ "" ∧ (normalizeQuery keyword).length ≤ 80 :=
                ⟨fun hempty => hsize (.inl hempty), by
                  by_contra hlong
                  exact hsize (.inr (by omega))⟩
              exact hroom ⟨hshort, hnew, by omega, by omega⟩
            have hsub : (makeRoom current.keywords 1).Sublist current.keywords :=
              makeRoom_sublist 1
            have hlength : (makeRoom current.keywords 1).length + 1 ≤ maxWords :=
              length_makeRoom h.distinct hplace
            have hcount : confirmedCount (makeRoom current.keywords 1) ≤
                confirmedCount current.keywords := hsub.countP_le
            exact (h.sublist hsub).append_new ⟨keyword, rfl⟩
              (fun hmem => hnew ((hsub.map _).subset hmem)) rfl (by omega) (by omega)

/-- What `Overfull` excludes takes the list past its limit. -/
theorem addKeyword_of_overfull {keyword : String} (url : String) (now : Int)
    (h : (current.keywords.map TargetKeyword.keyword).Nodup)
    (hover : Overfull normalizeQuery keyword current) :
    ∃ new, addKeyword normalizeQuery keyword url now current = .ok new ∧
      maxWords < new.keywords.length := by
  obtain ⟨⟨hnonempty, hshort⟩, hnew, hconfirmed, hfull⟩ := hover
  have hfind : (current.keywords.find? fun item => item.keyword = normalizeQuery keyword) = none :=
    List.find?_eq_none.mpr fun x hx heq =>
      hnew (List.mem_map.mpr ⟨x, hx, of_decide_eq_true heq⟩)
  have hsize : ¬ (normalizeQuery keyword = "" ∨ 80 < (normalizeQuery keyword).length) := by
    rintro (hempty | hlong)
    · exact hnonempty hempty
    · omega
  have hkept : notDismissed current.keywords ≤ (makeRoom current.keywords 1).length := by
    rw [← notDismissed_makeRoom h 1]
    exact List.countP_le_length
  unfold Targets.addKeyword
  dsimp only
  rw [if_neg hsize, hfind]
  dsimp only
  rw [if_neg (by omega)]
  refine ⟨_, rfl, ?_⟩
  rw [List.length_append, List.length_singleton]
  omega

theorem find?_of_findKeyword {word : String} {found : TargetKeyword}
    (h : findKeyword normalizeQuery current word = some found) : found ∈ current.keywords :=
  (find?_keyword h).1

theorem KeywordsOk.setStatus {keyword : String} {status : KeywordStatus}
    (h : KeywordsOk normalizeQuery current.keywords)
    (hset : setStatus normalizeQuery keyword status now current = .ok new) :
    KeywordsOk normalizeQuery new.keywords := by
  unfold Targets.setStatus at hset
  split at hset
  · cases hset
  · next existing hfind =>
      split at hset
      · cases hset
      · next hleft =>
          cases hset
          refine h.updateWord (find?_of_findKeyword hfind) rfl rfl fun hconfirmed => ?_
          have hstatus : status = .confirmed := of_decide_eq_true hconfirmed
          by_cases hwas : existing.status = .confirmed
          · exact .inl (decide_eq_true hwas)
          · exact .inr (by
              by_contra hfull
              exact hleft ⟨hstatus, hwas, by omega⟩)

theorem KeywordsOk.proposeTitle {keyword runId : String} {unfinished : Bool} {requests : Nat}
    (h : KeywordsOk normalizeQuery current.keywords)
    (hasked : proposeTitle normalizeQuery keyword runId unfinished requests now current =
      .ok new) :
    KeywordsOk normalizeQuery new.keywords := by
  unfold Targets.proposeTitle at hasked
  split at hasked
  · cases hasked
  · next existing hfind =>
      split_ifs at hasked
      cases hasked
      exact h.updateWord (find?_of_findKeyword hfind) rfl rfl .inl

theorem keywords_suggest {jobId : String} {requests : Nat}
    (hasked : suggest jobId requests now current = .ok new) : new.keywords = current.keywords := by
  unfold suggest at hasked
  split_ifs at hasked
  cases hasked
  rfl

/-! ## The jobs -/

theorem keywords_failSuggestion {jobId error : String}
    (hfail : failSuggestion jobId error now current = some new) :
    new.keywords = current.keywords := by
  unfold failSuggestion at hfail
  split_ifs at hfail
  cases hfail
  rfl

theorem KeywordsOk.keepSuggestions {jobId : String} {found : List KeywordSuggestion}
    (h : KeywordsOk normalizeQuery current.keywords) (hfound : FoundOk normalizeQuery found)
    (hkeep : keepSuggestions jobId found now current = some new) :
    KeywordsOk normalizeQuery new.keywords := by
  unfold Targets.keepSuggestions at hkeep
  split_ifs at hkeep with hmine
  cases hkeep
  let decided := current.keywords.filter fun item => item.status ≠ .suggested
  let taken := decided.map TargetKeyword.keyword
  let asWord := fun item : KeywordSuggestion =>
    ({ keyword := item.keyword, url := item.url, intent := some item.intent,
       reason := if item.reason = "" then none else some item.reason,
       addedAt := now } : TargetKeyword)
  let fresh := (found.filter fun item => item.keyword ∉ taken).map asWord
  let roomy := makeRoom decided fresh.length
  let kept := fresh.take (maxWords - roomy.length)
  have hroomy : roomy.Sublist current.keywords :=
    (makeRoom_sublist fresh.length).trans List.filter_sublist
  have hold : KeywordsOk normalizeQuery roomy := h.sublist hroomy
  have hkept : ∀ x ∈ kept, ∃ item ∈ found, item.keyword ∉ taken ∧ asWord item = x := fun x hx => by
    obtain ⟨item, hitem, hword⟩ := List.mem_map.mp (List.mem_of_mem_take hx)
    obtain ⟨hin, hnot⟩ := List.mem_filter.mp hitem
    exact ⟨item, hin, of_decide_eq_true hnot, hword⟩
  change KeywordsOk normalizeQuery (roomy ++ kept)
  constructor
  · intro x hx
    rcases List.mem_append.mp hx with hx | hx
    · exact hold.normalised x hx
    · obtain ⟨item, hin, -, rfl⟩ := hkept x hx
      exact hfound.normalised item hin
  · have hfresh : (fresh.map TargetKeyword.keyword).Nodup := by
      rw [List.map_map]
      exact hfound.distinct.sublist (List.filter_sublist.map KeywordSuggestion.keyword)
    rw [List.map_append]
    refine hold.distinct.append (hfresh.sublist ((List.take_sublist _ _).map _)) fun w hw hw' => ?_
    obtain ⟨x, hx, rfl⟩ := List.mem_map.mp hw'
    obtain ⟨item, -, hnot, rfl⟩ := hkept x hx
    exact hnot (((makeRoom_sublist fresh.length).map TargetKeyword.keyword).subset hw)
  · have hfew := hold.few
    rw [List.length_append, List.length_take]
    omega
  · have hnone : kept.countP isConfirmed = 0 := List.countP_eq_zero.mpr fun x hx => by
      obtain ⟨item, -, -, rfl⟩ := hkept x hx
      exact Bool.false_ne_true
    unfold confirmedCount
    rw [List.countP_append, hnone]
    exact hold.confirmed
  · intro x hx
    rcases List.mem_append.mp hx with hx | hx
    · exact hold.checks x hx
    · obtain ⟨item, -, -, rfl⟩ := hkept x hx
      exact ⟨List.Pairwise.nil, Nat.zero_le _⟩

theorem ChecksOk.append {checks : List RankCheck} {check : RankCheck} (h : ChecksOk checks)
    (hlater : ∀ last ∈ checks.getLast?, last.checkedAt < check.checkedAt) :
    ChecksOk (lastOf keptChecks (checks ++ [check])) := by
  constructor
  · refine List.Pairwise.sublist (List.drop_sublist _ _) (List.pairwise_append.mpr
      ⟨h.1, List.pairwise_singleton _ _, fun a ha b hb => ?_⟩)
    rw [List.mem_singleton.mp hb]
    rcases List.eq_nil_or_concat checks with rfl | ⟨before, last, rfl⟩
    · exact absurd ha List.not_mem_nil
    · have hlast : last.checkedAt < check.checkedAt := hlater last (by simp)
      rw [List.concat_eq_append] at ha
      rcases List.mem_append.mp ha with hbefore | hend
      · have horder := (List.pairwise_append.mp (List.concat_eq_append ▸ h.1)).2.2 a hbefore last
          (List.mem_singleton.mpr rfl)
        exact Int.lt_trans horder hlast
      · rw [List.mem_singleton.mp hend]
        exact hlast
  · unfold lastOf
    rw [List.length_drop]
    omega

theorem keyword_withCheck (found : List (String × RankCheck)) (item : TargetKeyword) :
    (withCheck found item).keyword = item.keyword ∧ (withCheck found item).status = item.status := by
  unfold withCheck
  split
  · exact ⟨rfl, rfl⟩
  · split
    · exact ⟨rfl, rfl⟩
    · exact ⟨rfl, rfl⟩

theorem ChecksOk.withCheck {found : List (String × RankCheck)} (h : ChecksOk item.checks) :
    ChecksOk (withCheck found item).checks := by
  unfold Targets.withCheck
  split
  · exact h
  · split
    · next hlater => exact h.append hlater
    · exact h

theorem KeywordsOk.saveChecks {found : List (String × RankCheck)}
    (h : KeywordsOk normalizeQuery current.keywords)
    (hsave : saveChecks found current = some new) : KeywordsOk normalizeQuery new.keywords := by
  unfold Targets.saveChecks at hsave
  dsimp only at hsave
  split_ifs at hsave
  cases hsave
  constructor
  · intro x hx
    obtain ⟨y, hy, rfl⟩ := List.mem_map.mp hx
    rw [(keyword_withCheck found y).1]
    exact h.normalised y hy
  · have hsame : (TargetKeyword.keyword ∘ Targets.withCheck found) = TargetKeyword.keyword :=
      funext fun y => (keyword_withCheck found y).1
    rw [List.map_map, hsame]
    exact h.distinct
  · rw [List.length_map]
    exact h.few
  · have hsame : (isConfirmed ∘ Targets.withCheck found) = isConfirmed :=
      funext fun y => by
        rw [Function.comp_apply, isConfirmed, isConfirmed, (keyword_withCheck found y).2]
    unfold confirmedCount
    rw [List.countP_map, hsame]
    exact h.confirmed
  · intro x hx
    obtain ⟨y, hy, rfl⟩ := List.mem_map.mp hx
    exact (h.checks y hy).withCheck

end SeoAgent.Targets
