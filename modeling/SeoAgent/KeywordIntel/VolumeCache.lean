import SeoAgent.Normalization.QueryAgain
import SeoAgent.Verified.Table

/-!
# Cached search volume

`CachedSearchVolume.lookup` of `app/keyword_intel/cache.py`: keywords are normalised, those
without a fresh stored answer are asked about in chunks, each for one unit of the budget, and
what the budget does not reach has an older answer or is pending. The budget and the provider
are whatever they are; every request and every unit taken is kept in a trace.

## Main results

* `asking_spec` — the requests are the first chunks of what is missing, each right after a
  unit of its own.
* `lookup_answers` — which keywords have an answer, and which are pending.
* `lookup_frugal` — no request is made without need.
* `lookup_complete_iff` — every keyword is answered or pending, and not both, whatever the
  store, the budget and the provider, if and only if all normal forms are normalised to
  themselves.
-/

namespace SeoAgent.SearchVolume

open SeoAgent.Verified Normalization

/-! ## Stored answers -/

/-- `KeywordVolume`. -/
structure KeywordVolume where
  keyword : List Char
  searchVolume : Option Nat := none
  fetchedAt : Int
  confirmed : Bool := true
  deriving DecidableEq, Repr

/-- The stored answers of one provider, each under the keyword it is about. -/
structure VolumeStore where
  read : List Char → Option KeywordVolume
  keyword_eq : ∀ keyword volume, read keyword = some volume → volume.keyword = keyword

theorem keyword_update {store : VolumeStore} {volume found : KeywordVolume} {keyword : List Char}
    (h : Function.update store.read volume.keyword (some volume) keyword = some found) :
    found.keyword = keyword := by
  rw [Function.update_apply] at h
  split at h
  · next heq =>
      rw [← Option.some.inj h]
      exact heq.symm
  · exact store.keyword_eq keyword found h

/-- `_Store.upsert`. -/
def VolumeStore.upsert (store : VolumeStore) (volume : KeywordVolume) : VolumeStore where
  read := Function.update store.read volume.keyword (some volume)
  keyword_eq := fun _ _ => keyword_update

/-! ## Budget and provider -/

/-- What `consume` comes to. -/
inductive Grant
  | granted
  /-- `BudgetExhaustedError`. -/
  | exhausted
  | failed
  deriving DecidableEq, Repr

/-- What `search_volumes` comes to. -/
inductive Answer
  | volumes (fetched : List KeywordVolume)
  /-- `BudgetExhaustedError`. -/
  | exhausted
  /-- `ProviderQuotaError`. -/
  | quota
  | failed
  deriving DecidableEq, Repr

/-- A budget and a provider, over their state. -/
structure Upstream (W : Type) where
  consume : W → Grant × W
  search : W → List (List Char) → Answer × W
  /-- Whether it went through. -/
  exhaust : W → Bool × W
  maxKeywordsPerRequest : Int

/-- One entry a keyword asked about, in the same order. -/
def Upstream.Echoes {W : Type} (up : Upstream W) : Prop :=
  ∀ world keywords fetched, (up.search world keywords).1 = .volumes fetched →
    fetched.map (·.keyword) = keywords

/-- What a lookup does outside. -/
inductive Event
  | consumed
  | asked (keywords : List (List Char))
  deriving DecidableEq, Repr

/-! ## The lookup -/

/-- `_ttl` and `_unconfirmed_ttl`. -/
structure Ttls where
  ttl : Int
  unconfirmedTtl : Int

def isFresh (ttls : Ttls) (now : Int) (volume : KeywordVolume) : Bool :=
  now - volume.fetchedAt ≤ if volume.confirmed then ttls.ttl else ttls.unconfirmedTtl

/-- `wanted`. -/
def wantedOf (U : QueryTables) (keywords : List (List Char)) : List (List Char) :=
  keywords.foldl (fun wanted keyword =>
    let normalized := normalizeQuery U keyword
    if normalized ≠ [] ∧ wanted.contains normalized = false then wanted ++ [normalized]
    else wanted) []

abbrev Answers : Type := Table (List Char) KeywordVolume

/-- `answers` and `stale` after the reads. -/
def readCached (ttls : Ttls) (now : Int) (store : VolumeStore) (wanted : List (List Char)) :
    Answers × Answers :=
  wanted.foldl (fun read keyword =>
    match store.read keyword with
    | none => read
    | some volume =>
        if isFresh ttls now volume then (read.1.put keyword volume, read.2)
        else (read.1, read.2.put keyword volume)) ([], [])

/-- A lookup under way. -/
structure State (W : Type) where
  world : W
  store : VolumeStore
  answers : Answers
  requests : Nat := 0
  events : List Event := []

variable {W : Type}

/-- One request, right after its unit of the budget. -/
def paid (chunk : List (List Char)) : List Event := [.consumed, .asked chunk]

def State.ask (state : State W) (world : W) (chunk : List (List Char)) : State W :=
  { state with world := world, events := state.events ++ paid chunk }

/-- `requests += 1`. -/
def State.count (state : State W) : State W := { state with requests := state.requests + 1 }

/-- One fetched answer. -/
def record (U : QueryTables) (state : State W) (volume : KeywordVolume) : State W :=
  let key := normalizeQuery U volume.keyword
  let volume := { volume with keyword := key }
  { state with answers := state.answers.put key volume, store := state.store.upsert volume }

/-- The loop over the chunks, with what is pending at its end; `none` where it raises. -/
def askFrom (U : QueryTables) (up : Upstream W) (missing : List (List Char)) (size : Nat) :
    List Nat → State W → Option (List (List Char)) × State W
  | [], state => (some [], state)
  | offset :: offsets, state =>
      let chunk := (missing.drop offset).take size
      match up.consume state.world with
      | (.exhausted, world) => (some (missing.drop offset), { state with world := world })
      | (.failed, world) => (none, { state with world := world })
      | (.granted, world) =>
          match up.search world chunk with
          | (.exhausted, world) => (some (missing.drop offset), state.ask world chunk)
          | (.quota, world) =>
              match up.exhaust world with
              | (true, world) => (some (missing.drop offset), state.ask world chunk)
              | (false, world) => (none, state.ask world chunk)
          | (.failed, world) => (none, state.ask world chunk)
          | (.volumes fetched, world) =>
              askFrom U up missing size offsets
                (fetched.foldl (record U) (state.ask world chunk).count)

/-- `max(1, max_keywords_per_request)`. -/
def Upstream.size (up : Upstream W) : Nat := (max 1 up.maxKeywordsPerRequest).toNat

/-- How many chunks a list has. -/
def chunkCount (missing : List (List Char)) (size : Nat) : Nat :=
  (missing.length + size - 1) / size

/-- `range(0, len(missing), size)`. -/
def offsets (missing : List (List Char)) (size : Nat) : List Nat :=
  (List.range (chunkCount missing size)).map (· * size)

/-- The last loop: older answers, and what is still pending. -/
def fallBack (stale : Answers) (answers : Answers) (pending : List (List Char)) :
    Answers × List (List Char) :=
  pending.foldl (fun found keyword =>
    match stale.get? keyword with
    | some volume => (found.1.put keyword volume, found.2)
    | none => (found.1, found.2 ++ [keyword])) (answers, [])

/-- `VolumeLookup`. -/
structure VolumeLookup where
  volumes : List KeywordVolume
  pending : List (List Char) := []
  requestsMade : Nat := 0
  deriving DecidableEq, Repr

/-- What is asked about: the wanted keywords without a fresh answer. -/
def missingOf (ttls : Ttls) (now : Int) (store : VolumeStore) (wanted : List (List Char)) :
    List (List Char) :=
  wanted.filter fun keyword => ((readCached ttls now store wanted).1.get? keyword).isNone

/-- The requests of a lookup, after its reads. -/
def asking (U : QueryTables) (up : Upstream W) (ttls : Ttls) (now : Int) (store : VolumeStore)
    (world : W) (wanted : List (List Char)) : Option (List (List Char)) × State W :=
  let missing := missingOf ttls now store wanted
  askFrom U up missing up.size (offsets missing up.size)
    { world := world, store := store, answers := (readCached ttls now store wanted).1 }

/-- What is answered at the end, and what is still pending. -/
def answering (U : QueryTables) (up : Upstream W) (ttls : Ttls) (now : Int)
    (store : VolumeStore) (world : W) (wanted pending : List (List Char)) :
    Answers × List (List Char) :=
  fallBack (readCached ttls now store wanted).2 (asking U up ttls now store world wanted).2.answers
    pending

/-- `lookup`, with the state it ends in; `none` where it raises. -/
def lookup (U : QueryTables) (up : Upstream W) (ttls : Ttls) (now : Int) (store : VolumeStore)
    (world : W) (keywords : List (List Char)) : Option VolumeLookup × State W :=
  let wanted := wantedOf U keywords
  let asked := asking U up ttls now store world wanted
  (asked.1.map fun pending =>
    let answered := answering U up ttls now store world wanted pending
    ⟨wanted.filterMap answered.1.get?, answered.2, asked.2.requests⟩, asked.2)

/-! ## Wanted keywords and stored answers -/

section Reading
variable {U : QueryTables} {ttls : Ttls} {now : Int} {store : VolumeStore}
  {keywords wanted : List (List Char)} {keyword : List Char}

theorem wantedOf_append (keywords : List (List Char)) (raw : List Char) :
    wantedOf U (keywords ++ [raw]) =
      if normalizeQuery U raw ≠ [] ∧ normalizeQuery U raw ∉ wantedOf U keywords then
        wantedOf U keywords ++ [normalizeQuery U raw]
      else wantedOf U keywords := by
  simp only [← List.contains_iff_mem, Bool.not_eq_true]
  rw [wantedOf, List.foldl_append]
  rfl

/-- What is wanted are the normal forms that are not empty, each once. -/
theorem mem_wantedOf : keyword ∈ wantedOf U keywords ↔
    keyword ≠ [] ∧ ∃ raw ∈ keywords, normalizeQuery U raw = keyword := by
  induction keywords using List.reverseRecOn with
  | nil => simp [wantedOf]
  | append_singleton keywords raw ih =>
      have hlast : (∃ other ∈ keywords ++ [raw], normalizeQuery U other = keyword) ↔
          (∃ other ∈ keywords, normalizeQuery U other = keyword) ∨
            normalizeQuery U raw = keyword := by
        simp only [List.mem_append, List.mem_singleton, or_and_right, exists_or, exists_eq_left]
      rw [wantedOf_append, hlast]
      split
      · next hnew =>
          rw [List.mem_append, List.mem_singleton, ih]
          constructor
          · rintro (⟨hne, hold⟩ | rfl)
            · exact ⟨hne, Or.inl hold⟩
            · exact ⟨hnew.1, Or.inr rfl⟩
          · rintro ⟨hne, hold | rfl⟩
            · exact Or.inl ⟨hne, hold⟩
            · exact Or.inr rfl
      · next hknown =>
          rw [ih]
          refine and_congr_right fun hne => ⟨Or.inl, fun h => h.elim id fun hraw => ?_⟩
          have hin : normalizeQuery U raw ∈ wantedOf U keywords := by
            by_contra hnot
            exact hknown ⟨hraw ▸ hne, hnot⟩
          rw [hraw] at hin
          exact (ih.mp hin).2

theorem nodup_wantedOf (keywords : List (List Char)) : (wantedOf U keywords).Nodup := by
  induction keywords using List.reverseRecOn with
  | nil => exact List.nodup_nil
  | append_singleton keywords raw ih =>
      rw [wantedOf_append]
      split
      · next hnew =>
          exact List.nodup_append.mpr ⟨ih, List.nodup_singleton _, fun a ha b hb hab =>
            hnew.2 (List.mem_singleton.mp hb ▸ hab ▸ ha)⟩
      · exact ih

theorem readCached_append (wanted : List (List Char)) (next : List Char) :
    readCached ttls now store (wanted ++ [next]) =
      match store.read next with
      | none => readCached ttls now store wanted
      | some volume =>
          if isFresh ttls now volume then
            ((readCached ttls now store wanted).1.put next volume,
              (readCached ttls now store wanted).2)
          else ((readCached ttls now store wanted).1,
            (readCached ttls now store wanted).2.put next volume) := by
  rw [readCached, List.foldl_append]
  rfl

/-- The stored answers of wanted keywords, the fresh ones apart from the older ones. -/
theorem get?_readCached (wanted : List (List Char)) (keyword : List Char) :
    (readCached ttls now store wanted).1.get? keyword =
        (if keyword ∈ wanted then (store.read keyword).filter (isFresh ttls now) else none) ∧
      (readCached ttls now store wanted).2.get? keyword =
        (if keyword ∈ wanted then (store.read keyword).filter (!isFresh ttls now ·)
          else none) := by
  induction wanted using List.reverseRecOn with
  | nil => exact ⟨rfl, rfl⟩
  | append_singleton wanted next ih =>
      rw [readCached_append]
      by_cases hnext : keyword = next
      · subst hnext
        rw [if_pos (List.mem_append_right _ (List.mem_singleton_self _)),
          if_pos (List.mem_append_right _ (List.mem_singleton_self _))]
        cases hread : store.read keyword with
        | none =>
            rw [hread] at ih
            simpa using ih
        | some volume =>
            rw [hread] at ih
            dsimp only
            split
            · next hfresh =>
                have hold : (readCached ttls now store wanted).2.get? keyword = none := by
                  rw [ih.2]
                  simp [hfresh]
                rw [Table.get?_put, if_pos rfl, hold, Option.filter_some, Option.filter_some, hfresh]
                exact ⟨rfl, rfl⟩
            · next hstale =>
                have hold : (readCached ttls now store wanted).1.get? keyword = none := by
                  rw [ih.1]
                  simp [hstale]
                rw [Table.get?_put, if_pos rfl, hold, Option.filter_some, Option.filter_some,
                  Bool.eq_false_iff.mpr hstale]
                exact ⟨rfl, rfl⟩
      · have hmem : keyword ∈ wanted ++ [next] ↔ keyword ∈ wanted := by
          rw [List.mem_append, List.mem_singleton]
          exact or_iff_left hnext
        simp only [hmem]
        cases store.read next with
        | none => exact ih
        | some volume =>
            dsimp only
            split
            · rw [Table.get?_put, if_neg hnext]
              exact ih
            · rw [Table.get?_put, if_neg hnext]
              exact ih

end Reading

/-! ## The loop over the chunks -/

section Asking
variable {U : QueryTables} {up : Upstream W} {missing : List (List Char)} {size i : Nat}
  {first answers : Answers} {state : State W} {fetched : List KeywordVolume}

/-- Each answer is under the keyword it is about. -/
def Keyed (answers : Answers) : Prop :=
  ∀ keyword volume, answers.get? keyword = some volume → volume.keyword = keyword

theorem Keyed.put {volume : KeywordVolume} (h : Keyed answers) :
    Keyed (answers.put volume.keyword volume) := by
  intro keyword found hfound
  rw [Table.get?_put] at hfound
  split at hfound
  · next heq =>
      rw [← Option.some.inj hfound]
      exact heq.symm
  · exact h keyword found hfound

/-- What is recorded of an answer. -/
def recorded (U : QueryTables) (volume : KeywordVolume) : KeywordVolume :=
  { volume with keyword := normalizeQuery U volume.keyword }

theorem isSome_put (answers : Answers) (volume : KeywordVolume) (keyword : List Char) :
    ((answers.put volume.keyword volume).get? keyword).isSome ↔
      (answers.get? keyword).isSome ∨ volume.keyword = keyword := by
  rw [Table.get?_put]
  split
  · next heq => exact iff_of_true rfl (Or.inr heq.symm)
  · next hne => exact (or_iff_left fun h => hne h.symm).symm

theorem record_answers (U : QueryTables) (state : State W) (volume : KeywordVolume) :
    (record U state volume).answers =
      state.answers.put (recorded U volume).keyword (recorded U volume) := rfl

/-- The answers that are recorded are under the normal forms of their keywords. -/
theorem answers_record (fetched : List KeywordVolume) (state : State W)
    (hkeyed : Keyed state.answers) :
    Keyed (fetched.foldl (record U) state).answers ∧
      ∀ keyword, ((fetched.foldl (record U) state).answers.get? keyword).isSome ↔
        (state.answers.get? keyword).isSome ∨
          ∃ asked ∈ fetched.map (·.keyword), normalizeQuery U asked = keyword := by
  induction fetched generalizing state with
  | nil => exact ⟨hkeyed, fun keyword => by simp⟩
  | cons volume fetched ih =>
      have hnext : Keyed (record U state volume).answers := by
        rw [record_answers]
        exact hkeyed.put
      rw [List.foldl_cons]
      obtain ⟨hrest, hsome⟩ := ih (record U state volume) hnext
      refine ⟨hrest, fun keyword => ?_⟩
      rw [hsome, record_answers, isSome_put]
      simp only [List.map_cons, List.mem_cons, or_and_right, exists_or, exists_eq_left, or_assoc]
      rfl

theorem events_record (fetched : List KeywordVolume) (state : State W) :
    (fetched.foldl (record U) state).events = state.events := by
  induction fetched generalizing state with
  | nil => rfl
  | cons volume fetched ih =>
      rw [List.foldl_cons, ih]
      rfl

/-- The first chunks have been asked for, each paid for. -/
def Traced (missing : List (List Char)) (size i : Nat) (state : State W) : Prop :=
  ∃ chunks : List (List (List Char)), state.events = chunks.flatMap paid ∧
    chunks.flatten = missing.take (i * size) ∧ chunks.length = i

/-- The first chunks have been answered. -/
def Answered (U : QueryTables) (first : Answers) (missing : List (List Char)) (size i : Nat)
    (state : State W) : Prop :=
  Keyed state.answers ∧ ∀ keyword, (state.answers.get? keyword).isSome ↔
    (first.get? keyword).isSome ∨
      ∃ asked ∈ missing.take (i * size), normalizeQuery U asked = keyword

theorem take_chunk (missing : List (List Char)) (size i : Nat) :
    missing.take ((i + 1) * size) =
      missing.take (i * size) ++ (missing.drop (i * size)).take size := by
  rw [Nat.succ_mul, List.take_add]

theorem Traced.next (h : Traced missing size i state) {next : State W}
    (hnext : next.events = state.events ++ paid ((missing.drop (i * size)).take size)) :
    Traced missing size (i + 1) next := by
  obtain ⟨chunks, hevents, hflatten, hlength⟩ := h
  refine ⟨chunks ++ [(missing.drop (i * size)).take size], ?_, ?_, ?_⟩
  · rw [hnext, hevents, List.flatMap_append, List.flatMap_singleton]
  · rw [List.flatten_append, hflatten, List.flatten_singleton, take_chunk]
  · rw [List.length_append, hlength, List.length_singleton]

theorem Answered.next (h : Answered U first missing size i state) {next : State W}
    (hanswers : next.answers = state.answers)
    (hfetched : fetched.map (·.keyword) = (missing.drop (i * size)).take size) :
    Answered U first missing size (i + 1) (fetched.foldl (record U) next) := by
  obtain ⟨hkeyed, hsome⟩ := h
  obtain ⟨hkeyed', hsome'⟩ := answers_record (U := U) fetched next (hanswers ▸ hkeyed)
  refine ⟨hkeyed', fun keyword => ?_⟩
  rw [hsome', hanswers, hsome, hfetched, take_chunk]
  simp only [List.mem_append, or_and_right, exists_or, or_assoc]

/-- The loop asks for the first chunks, and pends from a chunk on where it ends early. -/
theorem askFrom_spec (count : Nat) (hall : missing.length ≤ (i + count) * size)
    (htraced : Traced missing size i state)
    (hanswered : up.Echoes → Answered U first missing size i state) :
    ∃ n, n ≤ i + count ∧
      Traced missing size n
        (askFrom U up missing size ((List.range' i count).map (· * size)) state).2 ∧
      ∀ pending, (askFrom U up missing size ((List.range' i count).map (· * size)) state).1 =
          some pending →
        ∃ m, pending = missing.drop (m * size) ∧ (up.Echoes → Answered U first missing size m
          (askFrom U up missing size ((List.range' i count).map (· * size)) state).2) := by
  induction count generalizing i state with
  | zero =>
      refine ⟨i, le_refl _, htraced, fun pending hpending => ⟨i, ?_, hanswered⟩⟩
      rw [Nat.add_zero] at hall
      rw [← Option.some.inj hpending, List.drop_eq_nil_of_le hall]
  | succ count ih =>
      rw [List.range'_succ, List.map_cons, askFrom]
      cases hconsume : up.consume state.world with
      | mk grant world =>
          cases grant with
          | exhausted =>
              refine ⟨i, by omega, htraced, fun pending hpending => ⟨i, ?_, hanswered⟩⟩
              exact (Option.some.inj hpending).symm
          | failed => exact ⟨i, by omega, htraced, fun pending hpending => nomatch hpending⟩
          | granted =>
              dsimp only
              cases hsearch : up.search world ((missing.drop (i * size)).take size) with
              | mk answer world' =>
                  cases answer with
                  | exhausted =>
                      exact ⟨i + 1, by omega, htraced.next rfl, fun pending hpending =>
                        ⟨i, (Option.some.inj hpending).symm, hanswered⟩⟩
                  | quota =>
                      dsimp only
                      cases hexhaust : up.exhaust world' with
                      | mk through world'' =>
                          cases through with
                          | true =>
                              exact ⟨i + 1, by omega, htraced.next rfl, fun pending hpending =>
                                ⟨i, (Option.some.inj hpending).symm, hanswered⟩⟩
                          | false =>
                              exact ⟨i + 1, by omega, htraced.next rfl,
                                fun pending hpending => nomatch hpending⟩
                  | failed =>
                      exact ⟨i + 1, by omega, htraced.next rfl,
                        fun pending hpending => nomatch hpending⟩
                  | volumes fetched =>
                      have hcovers : missing.length ≤ (i + 1 + count) * size := by
                        rw [Nat.add_right_comm]
                        exact hall
                      have hnext : Traced missing size (i + 1) (fetched.foldl (record U)
                          (state.ask world' ((missing.drop (i * size)).take size)).count) :=
                        htraced.next (events_record fetched _)
                      obtain ⟨n, hn, htrace, hpend⟩ := ih hcovers hnext fun hechoes =>
                        (hanswered hechoes).next rfl (hechoes world _ fetched (by rw [hsearch]))
                      exact ⟨n, by omega, htrace, hpend⟩

end Asking

/-! ## The whole lookup -/

section Lookup
variable {U : QueryTables} {up : Upstream W} {ttls : Ttls} {now : Int} {store : VolumeStore}
  {world : W} {keywords : List (List Char)} {keyword : List Char}
  {stale answers : Answers} {pending : List (List Char)} {found : VolumeLookup}

/-- The requests among what is done outside. -/
def requestsOf (events : List Event) : List (List (List Char)) :=
  events.filterMap fun
    | .consumed => none
    | .asked chunk => some chunk

theorem requestsOf_paid (chunks : List (List (List Char))) :
    requestsOf (chunks.flatMap paid) = chunks := by
  induction chunks with
  | nil => rfl
  | cons chunk chunks ih =>
      rw [List.flatMap_cons, requestsOf, List.filterMap_append]
      exact congrArg (chunk :: ·) ih

/-- The last loop answers what has an older answer, and leaves the rest pending. -/
theorem fallBack_spec (hkeyed : Keyed answers) (hstale : Keyed stale)
    (pending : List (List Char)) :
    Keyed (fallBack stale answers pending).1 ∧
      (∀ keyword, ((fallBack stale answers pending).1.get? keyword).isSome ↔
        (answers.get? keyword).isSome ∨ keyword ∈ pending ∧ (stale.get? keyword).isSome) ∧
      (fallBack stale answers pending).2 =
        pending.filter fun keyword => (stale.get? keyword).isNone := by
  induction pending using List.reverseRecOn with
  | nil => exact ⟨hkeyed, fun keyword => by simp [fallBack], rfl⟩
  | append_singleton pending last ih =>
      obtain ⟨ihkeyed, ihsome, ihpending⟩ := ih
      have hstep : fallBack stale answers (pending ++ [last]) =
          match stale.get? last with
          | some volume => ((fallBack stale answers pending).1.put last volume,
              (fallBack stale answers pending).2)
          | none => ((fallBack stale answers pending).1,
              (fallBack stale answers pending).2 ++ [last]) := by
        rw [fallBack, List.foldl_append]
        rfl
      rw [hstep]
      cases hlast : stale.get? last with
      | none =>
          refine ⟨ihkeyed, fun keyword => ?_, ?_⟩
          · rw [ihsome, List.mem_append, List.mem_singleton]
            refine or_congr_right ⟨fun h => ⟨Or.inl h.1, h.2⟩, fun h => ⟨?_, h.2⟩⟩
            refine h.1.resolve_right fun heq => ?_
            rw [heq, hlast] at h
            exact Bool.false_ne_true h.2
          · rw [ihpending, List.filter_append]
            simp [hlast]
      | some volume =>
          have hkey : volume.keyword = last := hstale last volume hlast
          refine ⟨hkey ▸ ihkeyed.put, fun keyword => ?_, ?_⟩
          · dsimp only
            rw [← hkey, isSome_put, ihsome, hkey, List.mem_append, List.mem_singleton, or_assoc]
            refine or_congr_right ⟨?_, ?_⟩
            · rintro (⟨hmem, hsome⟩ | rfl)
              · exact ⟨Or.inl hmem, hsome⟩
              · exact ⟨Or.inr rfl, by rw [hlast]; rfl⟩
            · rintro ⟨hmem | heq, hsome⟩
              · exact Or.inl ⟨hmem, hsome⟩
              · exact Or.inr heq.symm
          · rw [ihpending, List.filter_append]
            simp [hlast]

theorem keyed_readCached (ttls : Ttls) (now : Int) (store : VolumeStore)
    (wanted : List (List Char)) :
    Keyed (readCached ttls now store wanted).1 ∧ Keyed (readCached ttls now store wanted).2 := by
  have hread {p : KeywordVolume → Bool} {keyword : List Char} {volume : KeywordVolume}
      (h : (if keyword ∈ wanted then (store.read keyword).filter p else none) = some volume) :
      volume.keyword = keyword := by
    split at h
    · exact store.keyword_eq keyword volume (Option.filter_eq_some_iff.mp h).1
    · cases h
  refine ⟨fun keyword volume h => ?_, fun keyword volume h => ?_⟩
  · rw [(get?_readCached wanted keyword).1] at h
    exact hread h
  · rw [(get?_readCached wanted keyword).2] at h
    exact hread h

theorem size_pos (up : Upstream W) : 0 < up.size := by
  unfold Upstream.size
  omega

theorem covers (missing : List (List Char)) {size : Nat} (hsize : 0 < size) :
    missing.length ≤ (0 + chunkCount missing size) * size := by
  have hdiv : size * ((missing.length + size - 1) / size) + (missing.length + size - 1) % size =
      missing.length + size - 1 := Nat.div_add_mod _ _
  have hmod := Nat.mod_lt (missing.length + size - 1) hsize
  rw [Nat.zero_add, chunkCount, Nat.mul_comm]
  omega

theorem mem_missingOf : keyword ∈ missingOf ttls now store (wantedOf U keywords) ↔
    keyword ∈ wantedOf U keywords ∧
      (store.read keyword).filter (isFresh ttls now) = none := by
  unfold missingOf
  rw [List.mem_filter]
  refine and_congr_right fun hmem => ?_
  rw [(get?_readCached _ keyword).1, if_pos hmem, Option.isNone_iff_eq_none]

/-- The requests are the first chunks of what is missing, each right after a unit of its own;
what is pending is missing from a chunk on, and the chunks before it have been answered. -/
theorem asking_spec (U : QueryTables) (up : Upstream W) (ttls : Ttls) (now : Int)
    (store : VolumeStore) (world : W) {wanted missing : List (List Char)} {first : Answers}
    (hmissing : missingOf ttls now store wanted = missing)
    (hfirst : (readCached ttls now store wanted).1 = first) :
    ∃ n, n ≤ chunkCount missing up.size ∧
      Traced missing up.size n (asking U up ttls now store world wanted).2 ∧
      ∀ pending, (asking U up ttls now store world wanted).1 = some pending →
        ∃ m, pending = missing.drop (m * up.size) ∧ (up.Echoes →
          Answered U first missing up.size m (asking U up ttls now store world wanted).2) := by
  have htraced : Traced missing up.size 0
      { world := world, store := store, answers := first : State W } :=
    ⟨[], rfl, by rw [Nat.zero_mul]; rfl, rfl⟩
  have hanswered : Answered U first missing up.size 0
      { world := world, store := store, answers := first : State W } := by
    refine ⟨hfirst ▸ (keyed_readCached ttls now store wanted).1, fun keyword => ?_⟩
    simp
  obtain ⟨n, hn, hspec⟩ := askFrom_spec (chunkCount missing up.size)
    (covers missing (size_pos up)) htraced fun _ : up.Echoes => hanswered
  rw [Nat.zero_add] at hn
  unfold asking offsets
  dsimp only
  rw [hmissing, hfirst, List.range_eq_range']
  exact ⟨n, hn, hspec⟩

theorem map_filterMap (hkeyed : Keyed answers) (wanted : List (List Char)) :
    (wanted.filterMap answers.get?).map (·.keyword) =
      wanted.filter fun keyword => (answers.get? keyword).isSome := by
  induction wanted with
  | nil => rfl
  | cons keyword wanted ih =>
      rw [List.filterMap_cons, List.filter_cons]
      cases hfound : answers.get? keyword with
      | none => exact ih
      | some volume =>
          dsimp only [Option.isSome_some]
          rw [if_pos rfl, List.map_cons, ih, hkeyed keyword volume hfound]

/-- Which keywords have an answer, and which are pending. -/
theorem lookup_answers (hechoes : up.Echoes)
    (h : (lookup U up ttls now store world keywords).1 = some found) :
    ∃ m, (∀ keyword, keyword ∈ found.volumes.map (·.keyword) ↔ keyword ∈ wantedOf U keywords ∧
        (((store.read keyword).filter (isFresh ttls now)).isSome ∨
          (∃ asked ∈ (missingOf ttls now store (wantedOf U keywords)).take (m * up.size),
            normalizeQuery U asked = keyword) ∨
          keyword ∈ (missingOf ttls now store (wantedOf U keywords)).drop (m * up.size) ∧
            (store.read keyword).isSome)) ∧
      (found.volumes.map (·.keyword)).Nodup ∧
      found.pending = ((missingOf ttls now store (wantedOf U keywords)).drop (m * up.size)).filter
        fun keyword => (store.read keyword).isNone := by
  obtain ⟨pending, hpending, hfound⟩ := Option.map_eq_some_iff.mp h
  obtain ⟨-, -, -, hspec⟩ := asking_spec U up ttls now store world
    (rfl : missingOf ttls now store (wantedOf U keywords) = _) rfl
  obtain ⟨m, rfl, hanswered⟩ := hspec pending hpending
  obtain ⟨hkeyed, hsome⟩ := hanswered hechoes
  obtain ⟨hfirst, hstale⟩ := keyed_readCached ttls now store (wantedOf U keywords)
  obtain ⟨hall, hallsome, hleft⟩ := fallBack_spec hkeyed hstale
    ((missingOf ttls now store (wantedOf U keywords)).drop (m * up.size))
  -- An older answer of a missing keyword is any stored answer.
  have holder : ∀ keyword ∈ (missingOf ttls now store (wantedOf U keywords)).drop (m * up.size),
      ((readCached ttls now store (wantedOf U keywords)).2.get? keyword).isSome =
        (store.read keyword).isSome := by
    intro keyword hmem
    obtain ⟨hwanted, hnone⟩ := mem_missingOf.mp (List.mem_of_mem_drop hmem)
    rw [(get?_readCached _ keyword).2, if_pos hwanted]
    cases hread : store.read keyword with
    | none => rfl
    | some volume =>
        rw [hread, Option.filter_some] at hnone
        have hnot : isFresh ttls now volume = false := by
          by_contra hfresh
          rw [if_pos (by simpa using hfresh)] at hnone
          cases hnone
        rw [Option.filter_some, hnot]
        rfl
  subst hfound
  refine ⟨m, fun keyword => ?_, ?_, ?_⟩
  · dsimp only [answering]
    rw [map_filterMap hall, List.mem_filter]
    refine and_congr_right fun hwanted => ?_
    rw [hallsome, hsome, (get?_readCached _ keyword).1, if_pos hwanted, or_assoc]
    refine or_congr_right (or_congr_right (and_congr_right fun hmem => ?_))
    rw [holder keyword hmem]
  · dsimp only [answering]
    rw [map_filterMap hall]
    exact (nodup_wantedOf keywords).filter _
  · refine hleft.trans (List.filter_congr fun keyword hmem => ?_)
    rw [← Option.not_isSome, ← Option.not_isSome, holder keyword hmem]

end Lookup

/-! ## Complete and frugal -/

/-- Nothing is asked twice, or about a keyword with a fresh answer, or in more requests than
chunks, or without a unit of the budget taken for it right before. -/
structure Frugal (ttls : Ttls) (now : Int) (store : VolumeStore)
    (wanted : List (List Char)) (size : Nat) (events : List Event) : Prop where
  once : (requestsOf events).flatten.Nodup
  needed : ∀ keyword ∈ (requestsOf events).flatten, keyword ∈ wanted
  notFresh : ∀ keyword ∈ (requestsOf events).flatten, ∀ volume,
    store.read keyword = some volume → isFresh ttls now volume = false
  few : (requestsOf events).length ≤ chunkCount (missingOf ttls now store wanted) size
  eachPaid : events = (requestsOf events).flatMap paid

/-- Whatever is stored and whatever the budget and the provider do, as long as the provider
echoes: the lookup is frugal, and every wanted keyword is in one of `volumes` and `pending`. -/
def Serves (U : QueryTables) (keywords : List (List Char)) : Prop :=
  ∀ (W : Type) (up : Upstream W) (ttls : Ttls) (now : Int) (store : VolumeStore) (world : W),
    up.Echoes →
      Frugal ttls now store (wantedOf U keywords) up.size
        (lookup U up ttls now store world keywords).2.events ∧
      ∀ found, (lookup U up ttls now store world keywords).1 = some found →
        (found.volumes.map (·.keyword) ++ found.pending).Perm (wantedOf U keywords)

section Serving
variable {U : QueryTables} {up : Upstream W} {ttls : Ttls} {now : Int} {store : VolumeStore}
  {world : W} {keywords : List (List Char)} {found : VolumeLookup}

theorem lookup_frugal (U : QueryTables) (up : Upstream W) (ttls : Ttls) (now : Int)
    (store : VolumeStore) (world : W) (keywords : List (List Char)) :
    Frugal ttls now store (wantedOf U keywords) up.size
      (lookup U up ttls now store world keywords).2.events := by
  obtain ⟨n, hn, ⟨chunks, hevents, hflatten, hlength⟩, -⟩ := asking_spec U up ttls now store world
    (rfl : missingOf ttls now store (wantedOf U keywords) = _) rfl
  have hrequests : requestsOf (lookup U up ttls now store world keywords).2.events = chunks := by
    rw [← requestsOf_paid chunks, ← hevents]
    rfl
  have hmissing {keyword : List Char} (hmem : keyword ∈ chunks.flatten) :
      keyword ∈ missingOf ttls now store (wantedOf U keywords) :=
    List.mem_of_mem_take (hflatten ▸ hmem)
  refine ⟨?_, fun keyword hmem => ?_, fun keyword hmem volume hread => ?_, ?_, ?_⟩
  · rw [hrequests, hflatten]
    exact ((nodup_wantedOf keywords).filter _).sublist (List.take_sublist _ _)
  · rw [hrequests] at hmem
    exact (mem_missingOf.mp (hmissing hmem)).1
  · rw [hrequests] at hmem
    have hnone := (mem_missingOf.mp (hmissing hmem)).2
    by_contra hfresh
    rw [hread, Option.filter_some, if_pos (by simpa using hfresh)] at hnone
    cases hnone
  · rw [hrequests, hlength]
    exact hn
  · rw [hrequests]
    exact hevents

/-- Where normal forms are normalised to themselves, nothing is lost. -/
theorem lookup_perm (hechoes : up.Echoes)
    (hstable : ∀ keyword ∈ wantedOf U keywords, normalizeQuery U keyword = keyword)
    (h : (lookup U up ttls now store world keywords).1 = some found) :
    (found.volumes.map (·.keyword) ++ found.pending).Perm (wantedOf U keywords) := by
  obtain ⟨m, hvolumes, hnodup, hpending⟩ := lookup_answers hechoes h
  have hmissing : (missingOf ttls now store (wantedOf U keywords)).Nodup :=
    (nodup_wantedOf keywords).filter _
  have hsplit : ∀ keyword, keyword ∈ missingOf ttls now store (wantedOf U keywords) ↔
      keyword ∈ (missingOf ttls now store (wantedOf U keywords)).take (m * up.size) ∨
        keyword ∈ (missingOf ttls now store (wantedOf U keywords)).drop (m * up.size) := by
    intro keyword
    rw [← List.mem_append, List.take_append_drop]
  have hasked : ∀ keyword,
      (∃ asked ∈ (missingOf ttls now store (wantedOf U keywords)).take (m * up.size),
        normalizeQuery U asked = keyword) ↔
      keyword ∈ (missingOf ttls now store (wantedOf U keywords)).take (m * up.size) := by
    intro keyword
    have hself : ∀ asked ∈ (missingOf ttls now store (wantedOf U keywords)).take (m * up.size),
        normalizeQuery U asked = asked := fun asked hmem =>
      hstable asked (mem_missingOf.mp (List.mem_of_mem_take hmem)).1
    constructor
    · rintro ⟨asked, hmem, rfl⟩
      rwa [hself asked hmem]
    · exact fun hmem => ⟨keyword, hmem, hself keyword hmem⟩
  refine (List.perm_ext_iff_of_nodup (List.nodup_append.mpr ⟨hnodup, ?_, ?_⟩)
    (nodup_wantedOf keywords)).mpr fun keyword => ?_
  · rw [hpending]
    exact (hmissing.sublist (List.drop_sublist _ _)).filter _
  · intro keyword hin other hleft heq
    subst heq
    rw [hpending, List.mem_filter] at hleft
    have hmem := mem_missingOf.mp (List.mem_of_mem_drop hleft.1)
    rcases ((hvolumes keyword).mp hin).2 with hfresh | hdone | ⟨-, hold⟩
    · rw [hmem.2] at hfresh
      cases hfresh
    · -- What has been asked for is not among what is left.
      exact List.disjoint_of_nodup_append
        (List.take_append_drop (m * up.size) _ ▸ hmissing) ((hasked keyword).mp hdone) hleft.1
    · have hnone := Option.isNone_iff_eq_none.mp hleft.2
      rw [hnone] at hold
      cases hold
  · rw [List.mem_append, hvolumes, hpending, List.mem_filter, hasked]
    constructor
    · rintro (hin | hleft)
      · exact hin.1
      · exact (mem_missingOf.mp (List.mem_of_mem_drop hleft.1)).1
    · intro hwanted
      cases hfresh : (store.read keyword).filter (isFresh ttls now) with
      | some volume => exact Or.inl ⟨hwanted, Or.inl rfl⟩
      | none =>
          rcases (hsplit keyword).mp (mem_missingOf.mpr ⟨hwanted, hfresh⟩) with hdone | hleft
          · exact Or.inl ⟨hwanted, Or.inr (Or.inl hdone)⟩
          · cases hread : store.read keyword with
            | some volume => exact Or.inl ⟨hwanted, Or.inr (Or.inr ⟨hleft, rfl⟩)⟩
            | none => exact Or.inr ⟨hleft, rfl⟩

/-! ## A normal form that changes -/

/-- A budget without an end and a provider that knows no volume. -/
def generous : Upstream Unit where
  consume := fun world => (.granted, world)
  search := fun world keywords =>
    (.volumes (keywords.map fun keyword => { keyword := keyword, fetchedAt := 0 }), world)
  exhaust := fun world => (true, world)
  maxKeywordsPerRequest := 1

theorem generous_echoes : generous.Echoes := by
  intro world keywords fetched h
  rw [← Answer.volumes.inj h, List.map_map]
  exact List.map_id keywords

theorem askFrom_generous (missing : List (List Char)) (size : Nat) (offsets : List Nat)
    (state : State Unit) : (askFrom U generous missing size offsets state).1 = some [] := by
  induction offsets generalizing state with
  | nil => rfl
  | cons offset offsets ih => exact ih _

theorem lookup_generous (U : QueryTables) (ttls : Ttls) (now : Int) (store : VolumeStore)
    (keywords : List (List Char)) : ∃ found,
      (lookup U generous ttls now store () keywords).1 = some found ∧ found.pending = [] := by
  have hasked : (asking U generous ttls now store () (wantedOf U keywords)).1 = some [] :=
    askFrom_generous _ _ _ _
  unfold lookup
  dsimp only
  rw [hasked]
  exact ⟨_, rfl, rfl⟩

/-- Every other keyword has a fresh answer. -/
def otherwiseStored (keyword : List Char) : VolumeStore where
  read := fun other => if other = keyword then none else some { keyword := other, fetchedAt := 0 }
  keyword_eq := by
    intro other volume h
    split at h
    · cases h
    · exact Option.some.inj h ▸ rfl

theorem filter_otherwiseStored (keyword other : List Char) :
    ((otherwiseStored keyword).read other).filter (isFresh ⟨0, 0⟩ 0) =
      if other = keyword then none else some { keyword := other, fetchedAt := 0 } := by
  unfold otherwiseStored
  dsimp only
  split
  · rfl
  · rfl

/-- A keyword whose normal form changes again is lost once it is asked about. -/
theorem lost_of_changes {keyword : List Char} (hchanges : normalizeQuery U keyword ≠ keyword)
    (hfound : (lookup U generous ⟨0, 0⟩ 0 (otherwiseStored keyword) () keywords).1 = some found) :
    keyword ∉ found.volumes.map (·.keyword) := by
  obtain ⟨m, hvolumes, -⟩ := lookup_answers generous_echoes hfound
  have hmissing : ∀ other ∈ missingOf ⟨0, 0⟩ 0 (otherwiseStored keyword) (wantedOf U keywords),
      other = keyword := by
    intro other hmem
    have hnone := (mem_missingOf.mp hmem).2
    rw [filter_otherwiseStored] at hnone
    by_contra hne
    rw [if_neg hne] at hnone
    cases hnone
  intro hmem
  rcases ((hvolumes keyword).mp hmem).2 with hfresh | ⟨asked, hasked, heq⟩ | ⟨-, hold⟩
  · rw [filter_otherwiseStored, if_pos rfl] at hfresh
    cases hfresh
  · rw [hmissing asked (List.mem_of_mem_take hasked)] at heq
    exact hchanges heq
  · have hnone : (otherwiseStored keyword).read keyword = none := if_pos rfl
    rw [hnone] at hold
    cases hold

theorem normalizeQuery_nil (U : QueryTables) : normalizeQuery U [] = [] := rfl

theorem not_serves_of_changes {keyword : List Char} (hwanted : keyword ∈ wantedOf U keywords)
    (hchanges : normalizeQuery U keyword ≠ keyword) : ¬Serves U keywords := by
  intro hserves
  obtain ⟨found, hfound, hpending⟩ :=
    lookup_generous U ⟨0, 0⟩ 0 (otherwiseStored keyword) keywords
  have hperm := (hserves Unit generous ⟨0, 0⟩ 0 (otherwiseStored keyword) ()
    generous_echoes).2 found hfound
  rw [hpending, List.append_nil] at hperm
  exact lost_of_changes hchanges hfound (hperm.mem_iff.mpr hwanted)

/-- Nothing is lost, whatever is stored and answered, if and only if the normal forms stay as
they are when they are normalised once more. -/
theorem lookup_complete_iff (U : QueryTables) (keywords : List (List Char)) :
    Serves U keywords ↔ ∀ keyword ∈ keywords,
      normalizeQuery U (normalizeQuery U keyword) = normalizeQuery U keyword := by
  constructor
  · intro hserves keyword hmem
    by_contra hchanges
    have hne : normalizeQuery U keyword ≠ [] := by
      intro hnil
      rw [hnil] at hchanges
      exact hchanges (normalizeQuery_nil U)
    exact not_serves_of_changes (mem_wantedOf.mpr ⟨hne, keyword, hmem, rfl⟩) hchanges hserves
  · intro hstable W up ttls now store world hechoes
    refine ⟨lookup_frugal U up ttls now store world keywords, fun found hfound =>
      lookup_perm hechoes (fun keyword hwanted => ?_) hfound⟩
    obtain ⟨-, raw, hraw, rfl⟩ := mem_wantedOf.mp hwanted
    exact hstable raw hraw

/-- A letter and an accent with a space of no width between them. -/
theorem lost_accent : ¬Serves acute [['a', '\u200b', '\u0301']] :=
  not_serves_of_changes (mem_wantedOf.mpr ⟨List.cons_ne_nil 'a' ['\u0301'],
    ['a', '\u200b', '\u0301'], List.mem_singleton_self _, by decide⟩) (by decide)

end Serving

end SeoAgent.SearchVolume
