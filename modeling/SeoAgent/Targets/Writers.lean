import Mathlib.Data.List.Induction
import SeoAgent.Targets.Capacity
import SeoAgent.Verified.Steps

/-!
# The writers of a site's target keywords

The requests of the customer, the suggestion job and the weekly rank check all
rewrite the one record of a site (`app/targets/store.py`). Each reads it, works out
its change from what it read, and writes only over the version it read; a writer
that was overtaken writes nothing (a job reads again, which is another reader
here). Any number of them are under way at once, and each step is one access to
the store.

## Main results

* `Inv.next` — what a step keeps.
* `keywords_kept` — the stored words in every reachable state, when no word is
  added to a list that is full.
-/

namespace SeoAgent.Targets

open Verified

variable {normalizeQuery : String → String} {siteId tenantId : String} {now : Int}

/-! ## Writers -/

/-- What a writer means to do, with what it was given and when. -/
inductive Writer
  | addKeyword (keyword url : String) (now : Int)
  | setStatus (keyword : String) (status : KeywordStatus) (now : Int)
  | setBrief (description : String) (seeds : List String) (now : Int)
  | suggest (jobId : String) (tenantRequests : Nat) (now : Int)
  | proposeTitle (keyword runId : String) (unfinished : Bool) (tenantRequests : Nat) (now : Int)
  | keepSuggestions (jobId : String) (known : String → Option String) (clean : String → String)
      (items : List (Option KeywordSuggestionPayload)) (now : Int)
  | failSuggestion (jobId error : String) (now : Int)
  | saveChecks (search : String → Option Standing) (left : Nat) (now : Int)
      (listed : TargetKeywordSet)

/-- The record as it is stored or was read; there is none at version 0. -/
structure Copy where
  record : Option TargetKeywordSet := none
  version : Nat := 0

/-- The set of a site that has none yet: `read_or_new`. -/
def newSet (siteId tenantId : String) (now : Int) : TargetKeywordSet :=
  { siteId, tenantId, updatedAt := now }

variable (normalizeQuery siteId tenantId) in
/-- What a writer makes of the record it read; a job does nothing without one. -/
def Writer.change (read : Option TargetKeywordSet) : Writer → Option TargetKeywordSet
  | .addKeyword keyword url now =>
      (Targets.addKeyword normalizeQuery keyword url now
        (read.getD (newSet siteId tenantId now))).toOption
  | .setStatus keyword status now =>
      (Targets.setStatus normalizeQuery keyword status now
        (read.getD (newSet siteId tenantId now))).toOption
  | .setBrief description seeds now =>
      (Targets.setBrief normalizeQuery description seeds now
        (read.getD (newSet siteId tenantId now))).toOption
  | .suggest jobId tenantRequests now =>
      (Targets.suggest jobId tenantRequests now
        (read.getD (newSet siteId tenantId now))).toOption
  | .proposeTitle keyword runId unfinished tenantRequests now =>
      (Targets.proposeTitle normalizeQuery keyword runId unfinished tenantRequests now
        (read.getD (newSet siteId tenantId now))).toOption
  | .keepSuggestions jobId known clean items now =>
      read.bind (Targets.keepSuggestions jobId
        (parseKeywordAnswer normalizeQuery known clean items) now)
  | .failSuggestion jobId error now => read.bind (Targets.failSuggestion jobId error now)
  | .saveChecks search left now listed =>
      read.bind (Targets.saveChecks (foundChecks search left now listed))

/-! ## The store -/

structure State where
  stored : Copy := {}
  /-- The writers under way, each with the copy it read. -/
  readers : List (Writer × Copy) := []

inductive Action
  | read (w : Writer)
  | write (k : Nat)
  /-- The writer ends without a write: it is refused, or its process goes. -/
  | drop (k : Nat)

variable {w : Writer} {s s' : State}

def State.without (s : State) (k : Nat) : State := { s with readers := s.readers.eraseIdx k }

variable (normalizeQuery siteId tenantId) in
def step (s : State) : Action → Option State
  | .read w => some { s with readers := s.readers ++ [(w, s.stored)] }
  | .write k =>
      match s.readers[k]? with
      | none => none
      | some (w, copy) =>
          match w.change normalizeQuery siteId tenantId copy.record with
          | none => some (s.without k)
          | some new =>
              if copy.version = s.stored.version then
                some { s.without k with stored := ⟨some new, copy.version + 1⟩ }
              else some (s.without k)
  | .drop k => if k < s.readers.length then some (s.without k) else none

variable (normalizeQuery siteId tenantId) in
/-- The copy is no longer the stored one, or what it says leaves room for the word
that the writer adds. -/
def RoomyFor (s : State) (copy : Copy) : Writer → Prop
  | .addKeyword keyword _ now => copy.version = s.stored.version →
      ¬ Overfull normalizeQuery keyword (copy.record.getD (newSet siteId tenantId now))
  | _ => True

variable (normalizeQuery siteId tenantId) in
/-- No word is added to a list whose words that are not dismissed take every place. -/
def Roomy (s : State) : Action → Prop
  | .write k => ∀ reader ∈ s.readers[k]?,
      RoomyFor normalizeQuery siteId tenantId s reader.2 reader.1
  | _ => True

instance (s : State) (copy : Copy) :
    ∀ w, Decidable (RoomyFor normalizeQuery siteId tenantId s copy w)
  | .addKeyword _ _ _ => inferInstanceAs (Decidable (_ → ¬ _))
  | .setStatus _ _ _ => .isTrue trivial
  | .setBrief _ _ _ => .isTrue trivial
  | .suggest _ _ _ => .isTrue trivial
  | .proposeTitle _ _ _ _ _ => .isTrue trivial
  | .keepSuggestions _ _ _ _ _ => .isTrue trivial
  | .failSuggestion _ _ _ => .isTrue trivial
  | .saveChecks _ _ _ _ => .isTrue trivial

instance (s : State) : ∀ a, Decidable (Roomy normalizeQuery siteId tenantId s a)
  | .read _ => .isTrue trivial
  | .write k => inferInstanceAs (Decidable (∀ reader ∈ s.readers[k]?, _))
  | .drop _ => .isTrue trivial

/-! ## The invariant -/

variable (normalizeQuery) in
def Copy.Ok (copy : Copy) : Prop :=
  ∀ current ∈ copy.record, KeywordsOk normalizeQuery current.keywords

variable (normalizeQuery) in
/-- The stored words are in order, and so are those of every reader whose copy is
the stored version. -/
structure Inv (s : State) : Prop where
  stored : s.stored.Ok normalizeQuery
  past : ∀ reader ∈ s.readers, reader.2.version ≤ s.stored.version
  same : ∀ reader ∈ s.readers, reader.2.version = s.stored.version → reader.2 = s.stored

theorem Inv.start : Inv normalizeQuery {} :=
  ⟨fun _ h => absurd h (Option.not_mem_none _), fun _ h => absurd h List.not_mem_nil,
    fun _ h => absurd h List.not_mem_nil⟩

theorem Inv.without (h : Inv normalizeQuery s) (k : Nat) : Inv normalizeQuery (s.without k) :=
  ⟨h.stored, fun reader hr => h.past reader (List.mem_of_mem_eraseIdx hr),
    fun reader hr => h.same reader (List.mem_of_mem_eraseIdx hr)⟩

theorem Copy.Ok.getD {copy : Copy} (h : copy.Ok normalizeQuery) :
    KeywordsOk normalizeQuery (copy.record.getD (newSet siteId tenantId now)).keywords := by
  cases hrecord : copy.record with
  | none => exact KeywordsOk.nil
  | some current => exact h current hrecord

theorem toOption_ok {ε α : Type} {x : Except ε α} {a : α} (h : x.toOption = some a) : x = .ok a := by
  cases x with
  | error e => cases h
  | ok b => exact congrArg Except.ok (Option.some.inj h)

/-- What a writer makes of words that are in order is in order. -/
theorem Writer.change_ok {copy : Copy} {new : TargetKeywordSet} (h : copy.Ok normalizeQuery)
    (hroom : RoomyFor normalizeQuery siteId tenantId s copy w)
    (hcurrent : copy.version = s.stored.version)
    (hchange : w.change normalizeQuery siteId tenantId copy.record = some new) :
    KeywordsOk normalizeQuery new.keywords := by
  cases w with
  | addKeyword keyword url now => exact h.getD.addKeyword (hroom hcurrent) (toOption_ok hchange)
  | setStatus keyword status now => exact h.getD.setStatus (toOption_ok hchange)
  | setBrief description seeds now =>
      cases hchange
      have hcopy : KeywordsOk normalizeQuery
          (copy.record.getD (newSet siteId tenantId now)).keywords := h.getD
      exact hcopy
  | suggest jobId requests now =>
      rw [keywords_suggest (toOption_ok hchange)]
      exact h.getD
  | proposeTitle keyword runId unfinished requests now =>
      exact h.getD.proposeTitle (toOption_ok hchange)
  | keepSuggestions jobId known clean items now =>
      obtain ⟨current, hread, hkeep⟩ := Option.bind_eq_some_iff.mp hchange
      exact (h current hread).keepSuggestions (parseKeywordAnswer_ok known clean items) hkeep
  | failSuggestion jobId error now =>
      obtain ⟨current, hread, hfail⟩ := Option.bind_eq_some_iff.mp hchange
      rw [keywords_failSuggestion hfail]
      exact h current hread
  | saveChecks search left now listed =>
      obtain ⟨current, hread, hsave⟩ := Option.bind_eq_some_iff.mp hchange
      exact (h current hread).saveChecks hsave

theorem Inv.next {a : Action} (h : Inv normalizeQuery s)
    (hroom : Roomy normalizeQuery siteId tenantId s a)
    (hstep : step normalizeQuery siteId tenantId s a = some s') : Inv normalizeQuery s' := by
  cases a with
  | read w =>
      cases hstep
      refine ⟨h.stored, fun reader hr => ?_, fun reader hr => ?_⟩
      · rcases List.mem_append.mp hr with hold | hnew
        · exact h.past reader hold
        · rw [List.mem_singleton.mp hnew]
      · rcases List.mem_append.mp hr with hold | hnew
        · exact h.same reader hold
        · rw [List.mem_singleton.mp hnew]
          exact fun _ => rfl
  | drop k =>
      simp only [step, Option.ite_none_right_eq_some, Option.some.injEq] at hstep
      rw [← hstep.2]
      exact h.without k
  | write k =>
      unfold step at hstep
      dsimp only at hstep
      split at hstep
      · cases hstep
      · next w copy hreader =>
          have hmem : (w, copy) ∈ s.readers := List.mem_of_getElem? hreader
          split at hstep
          · cases hstep
            exact h.without k
          · next new hchange =>
              split at hstep
              · next hversion =>
                  cases hstep
                  have hcopy : copy = s.stored := h.same _ hmem hversion
                  refine ⟨fun current hnew => ?_, fun reader hr => ?_, fun reader hr heq => ?_⟩
                  · cases hnew
                    exact Writer.change_ok (hcopy ▸ h.stored) (hroom _ hreader) hversion hchange
                  · have := h.past reader (List.mem_of_mem_eraseIdx hr)
                    show reader.2.version ≤ copy.version + 1
                    omega
                  · -- No reader has the version that was just written.
                    have := h.past reader (List.mem_of_mem_eraseIdx hr)
                    have : reader.2.version = copy.version + 1 := heq
                    omega
              · cases hstep
                exact h.without k

/-! ## Every run -/

/-- Over any number of writers, in every order of their reads and writes, the
words are normalised and pairwise distinct, they and the confirmed ones are within
their limits, and the checks of each are in order and within theirs, in every
run that adds no word to a full list. -/
theorem keywords_kept (siteId tenantId : String)
    (h : Steps (step normalizeQuery siteId tenantId) (Roomy normalizeQuery siteId tenantId) {} s) :
    ∀ current ∈ s.stored.record, KeywordsOk normalizeQuery current.keywords :=
  (h.invariant Inv.start fun _ _ _ hinv hroom hstep => hinv.next hroom hstep).stored

/-- A customer adds a word while the weekly round, which listed the set before, has
its answer for an earlier one. -/
theorem keywords_kept_of_twoWriters :
    ∃ s, Steps (step id "site-1" "tenant-1") (Roomy id "site-1" "tenant-1") {} s ∧
      (s.stored.record.map fun current =>
        current.keywords.map fun item => (item.keyword, item.checks.length)) =
          some [("shoes", 1), ("boots", 0)] ∧
      ∀ current ∈ s.stored.record, KeywordsOk id current.keywords := by
  let listed : TargetKeywordSet :=
    { siteId := "site-1", tenantId := "tenant-1", updatedAt := 0,
      keywords := [{ keyword := "shoes", url := "/", status := .confirmed, addedAt := 0 }] }
  let actions : List Action :=
    [.read (.addKeyword "shoes" "/" 0), .write 0,
     .read (.saveChecks (fun _ => some ⟨5, some (3, "/")⟩) 50 7 listed),
     .read (.addKeyword "boots" "/boots" 6), .write 1, .write 0,
     .read (.saveChecks (fun _ => some ⟨5, some (3, "/")⟩) 50 7 listed), .write 0]
  have h : (stepsIf (step id "site-1" "tenant-1") (Roomy id "site-1" "tenant-1") {} actions).map
      (fun s => s.stored.record.map fun current =>
        current.keywords.map fun item => (item.keyword, item.checks.length)) =
      some (some [("shoes", 1), ("boots", 0)]) := by decide +kernel
  obtain ⟨s, hs, hwords⟩ := Option.map_eq_some_iff.mp h
  exact ⟨s, Steps.of_stepsIf hs, hwords, keywords_kept _ _ (Steps.of_stepsIf hs)⟩

/-! ## A full list

Every word that is added and then set back to a suggestion takes a place that no
later word gets: `make_room` does not forget it, and it does not count as confirmed. -/

/-- Alone with the store, a writer's change is what is stored. -/
theorem Steps.alone {s₀ : State} {new : TargetKeywordSet}
    (h : Steps (step normalizeQuery siteId tenantId) anyStep s₀ s) (hreaders : s.readers = [])
    (hchange : w.change normalizeQuery siteId tenantId s.stored.record = some new) :
    Steps (step normalizeQuery siteId tenantId) anyStep s₀
      { stored := ⟨some new, s.stored.version + 1⟩ } := by
  let reading : State := { s with readers := s.readers ++ [(w, s.stored)] }
  have hread : Steps (step normalizeQuery siteId tenantId) anyStep s₀ reading :=
    .next (.read w) h trivial rfl
  refine .next (.write 0) hread trivial ?_
  have hreader : reading.readers = [(w, s.stored)] := by
    show s.readers ++ [(w, s.stored)] = [(w, s.stored)]
    rw [hreaders, List.nil_append]
  simp only [step, hreader, List.getElem?_cons_zero, hchange, State.without,
    List.eraseIdx_cons_zero]
  exact if_pos rfl

def suggestedWord (word : String) : TargetKeyword :=
  { keyword := word, url := "/", status := .suggested, source := .customer, addedAt := 0 }

def confirmedWord (word : String) : TargetKeyword :=
  { suggestedWord word with status := .confirmed }

theorem map_keyword_suggestedWord (words : List String) :
    (words.map suggestedWord).map TargetKeyword.keyword = words := by
  rw [List.map_map]
  exact List.map_id _

theorem confirmedCount_suggestedWord (words : List String) :
    confirmedCount (words.map suggestedWord) = 0 :=
  List.countP_eq_zero.mpr fun x hx => by
    obtain ⟨word, -, rfl⟩ := List.mem_map.mp hx
    exact Bool.false_ne_true

theorem notDismissed_suggestedWord (words : List String) :
    notDismissed (words.map suggestedWord) = words.length := by
  unfold notDismissed
  rw [List.countP_eq_length.mpr, List.length_map]
  intro x hx
  obtain ⟨word, -, rfl⟩ := List.mem_map.mp hx
  rfl

/-- A word is added to the suggestions that are there. -/
theorem addKeyword_suggested {words : List String} {word : String} {current : TargetKeywordSet}
    (hwords : current.keywords = words.map suggestedWord) (hnew : word ∉ words)
    (hsize : word ≠ "" ∧ word.length ≤ 80) (hroom : words.length < maxWords) :
    addKeyword id word "/" 0 current = .ok { current with
      keywords := words.map suggestedWord ++ [confirmedWord word], updatedAt := 0 } := by
  have hfind : (current.keywords.find? fun item => item.keyword = word) = none :=
    List.find?_eq_none.mpr fun x hx heq => by
      rw [hwords] at hx
      obtain ⟨old, hold, rfl⟩ := List.mem_map.mp hx
      exact hnew ((of_decide_eq_true heq : old = word) ▸ hold)
  have hroomy : makeRoom (words.map suggestedWord) 1 = words.map suggestedWord := by
    unfold makeRoom
    dsimp only
    rw [if_pos (by rw [List.length_map]; omega)]
  unfold addKeyword
  dsimp only [id]
  rw [if_neg (by rintro (h | h); exacts [hsize.1 h, by omega]), hfind]
  dsimp only
  rw [hwords, confirmedCount_suggestedWord, if_neg (by decide), hroomy]
  rfl

/-- The word that was added last becomes a suggestion. -/
theorem setStatus_suggested {words : List String} {word : String} {current : TargetKeywordSet}
    (hwords : current.keywords = words.map suggestedWord ++ [confirmedWord word])
    (hnew : word ∉ words) :
    setStatus id word .suggested 0 current = .ok { current with
      keywords := (words ++ [word]).map suggestedWord, updatedAt := 0 } := by
  have hold : (words.map suggestedWord).find? (fun item => item.keyword = word) = none :=
    List.find?_eq_none.mpr fun x hx heq => by
      obtain ⟨old, hold, rfl⟩ := List.mem_map.mp hx
      exact hnew ((of_decide_eq_true heq : old = word) ▸ hold)
  have hfind : findKeyword id current word = some (confirmedWord word) := by
    unfold findKeyword
    rw [hwords, List.find?_append, id, hold, Option.none_or, List.find?_cons_of_pos]
    exact decide_eq_true rfl
  have hkept : updateWord (words.map suggestedWord) word (fun entry =>
      { entry with status := .suggested }) = words.map suggestedWord :=
    updateWord_of_not_mem (by rwa [map_keyword_suggestedWord])
  have hlast : updateWord [confirmedWord word] word (fun entry =>
      { entry with status := .suggested }) = [suggestedWord word] :=
    congrArg (fun item => [item]) (if_pos rfl)
  have hupdated : updateWord current.keywords word (fun entry =>
      { entry with status := .suggested }) = (words ++ [word]).map suggestedWord := by
    unfold updateWord at hkept hlast ⊢
    rw [hwords, List.map_append, hkept, hlast, List.map_append, List.map_singleton]
  unfold setStatus
  rw [hfind]
  dsimp only
  rw [if_neg (fun h => nomatch h.1)]
  exact congrArg (fun keywords => Except.ok { current with keywords, updatedAt := 0 }) hupdated

variable (siteId tenantId) in
/-- Any words, up to the limit, become suggestions of a site. -/
theorem reach_suggested (words : List String) (hnodup : words.Nodup)
    (hsize : ∀ word ∈ words, word ≠ "" ∧ word.length ≤ 80) (hfew : words.length ≤ maxWords) :
    ∃ s, Steps (step id siteId tenantId) anyStep {} s ∧ s.readers = [] ∧
      (s.stored.record.getD (newSet siteId tenantId 0)).keywords = words.map suggestedWord := by
  induction words using List.reverseRecOn with
  | nil => exact ⟨{}, .start, rfl, rfl⟩
  | append_singleton words word ih =>
      have hnew : word ∉ words := fun hmem =>
        (List.nodup_append.mp hnodup).2.2 word hmem word (List.mem_singleton.mpr rfl) rfl
      have hlength : words.length < maxWords := by
        rw [List.length_append, List.length_singleton] at hfew
        omega
      obtain ⟨s, hrun, hreaders, hwords⟩ := ih (List.nodup_append.mp hnodup).1
        (fun w hw => hsize w (List.mem_append_left _ hw)) (by omega)
      have hadd := addKeyword_suggested hwords hnew
        (hsize word (List.mem_append_right _ (List.mem_singleton.mpr rfl))) hlength
      have hadded := Steps.alone (w := .addKeyword word "/" 0) hrun hreaders
        (congrArg Except.toOption hadd)
      have hset := Steps.alone (w := .setStatus word .suggested 0) hadded rfl
        (congrArg Except.toOption (setStatus_suggested rfl hnew))
      exact ⟨_, hset, rfl, rfl⟩

/-- `"aa"`, `"ab"` and so on to `"jj"`. -/
def hundredWords : List String :=
  (List.range 100).map fun i =>
    String.ofList [Char.ofNat (97 + i / 10), Char.ofNat (97 + i % 10)]

/-- A hundred words are added, each set back to a suggestion before the next; the
word after them makes a hundred and one. -/
theorem oneWordTooMany :
    ¬ ∀ s, Steps (step id "site-1" "tenant-1") anyStep {} s →
      ∀ current ∈ s.stored.record, current.keywords.length ≤ maxWords := by
  intro hclaim
  obtain ⟨s, hrun, hreaders, hwords⟩ := reach_suggested "site-1" "tenant-1" hundredWords
    (by decide +kernel) (by decide +kernel) (by decide +kernel)
  have hfull : Overfull id "shoes" (s.stored.record.getD (newSet "site-1" "tenant-1" 0)) := by
    unfold Overfull
    rw [hwords, map_keyword_suggestedWord, confirmedCount_suggestedWord,
      notDismissed_suggestedWord]
    decide +kernel
  obtain ⟨new, hadd, hmany⟩ := addKeyword_of_overfull "/" 0
    (by rw [hwords, map_keyword_suggestedWord]; decide +kernel) hfull
  have hend := Steps.alone (w := .addKeyword "shoes" "/" 0) hrun hreaders
    (congrArg Except.toOption hadd)
  have := hclaim _ hend new rfl
  omega

end SeoAgent.Targets
