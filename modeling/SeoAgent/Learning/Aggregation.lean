import SeoAgent.Learning.Advice
import SeoAgent.Verified.Distinct

/-!
# What a learning context is made of

A context depends on the set of its events and on nothing else, as long as equal events
agree on whether they are measured.

## Main results

* `distinctEvents_ok` — what is kept is one of each of the events.
* `buildLearningContext_congr` — neither the order of the events nor repeats matter.
* `mem_performances` — the average of a performance is the one of the measured samples of
  its group.
-/

namespace SeoAgent.Learning

open Verified Decision
open Ports hiding FeedbackEvent Strategy

variable {events events' seen seen' : List FeedbackEvent} {event : FeedbackEvent}

/-! ## Distinct events -/

/-- The refusal of a conflict. -/
def conflict : Exc := .valueError "Conflicting duplicate feedback_id."

/-- What tells events apart: the feedback id, and what is equal with it. -/
def entryOf (event : FeedbackEvent) : String × FeedbackEvent :=
  (event.feedbackId, event.canonical)

/-- An event as an entry. -/
def readEvent (event : FeedbackEvent) : Except Exc (String × FeedbackEvent) :=
  .ok (entryOf event)

theorem addEvent_entries (seen : List FeedbackEvent) (event : FeedbackEvent) :
    (addEvent seen event).map (List.map entryOf) =
      keepEntry conflict (seen.map entryOf) (entryOf event) := by
  unfold addEvent keepEntry
  rw [List.find?_map]
  have hsame : ((fun d : String × FeedbackEvent => decide (d.1 = (entryOf event).1)) ∘ entryOf) =
      fun other => decide (other.feedbackId = event.feedbackId) := rfl
  rw [hsame]
  cases seen.find? fun other => other.feedbackId = event.feedbackId with
  | none => simp [Except.map]
  | some other =>
      have hvalue : (entryOf other).2 = (entryOf event).2 ↔ other.canonical = event.canonical :=
        Iff.rfl
      simp only [Option.map_some, hvalue]
      split <;> rfl

theorem foldlM_addEvent_entries (seen events : List FeedbackEvent) :
    (events.foldlM addEvent seen).map (List.map entryOf) =
      readOn conflict readEvent (seen.map entryOf) events := by
  induction events generalizing seen with
  | nil => rfl
  | cons event events ih =>
      have hadd := addEvent_entries seen event
      rw [readOn, readEntry]
      simp only [readEvent, List.foldlM_cons, bind, Except.bind]
      rw [← hadd]
      cases addEvent seen event with
      | error exc => rfl
      | ok seen' => exact ih seen'

/-- The entries of what is kept are the distinct entries. -/
theorem distinctEvents_entries (events : List FeedbackEvent) :
    (distinctEvents events).map (List.map entryOf) =
      readDistinct conflict readEvent events :=
  foldlM_addEvent_entries [] events

theorem mem_of_addEvent (h : addEvent seen event = .ok seen') {e : FeedbackEvent}
    (he : e ∈ seen') : e ∈ seen ∨ e = event := by
  unfold addEvent at h
  split at h
  · split at h
    · obtain rfl := Except.ok.inj h
      exact .inl he
    · cases h
  · obtain rfl := Except.ok.inj h
    exact (List.mem_append.mp he).imp_right List.mem_singleton.mp

theorem mem_of_foldlM (h : events.foldlM addEvent seen = .ok seen') {e : FeedbackEvent}
    (he : e ∈ seen') : e ∈ seen ∨ e ∈ events := by
  induction events generalizing seen with
  | nil =>
      obtain rfl := Except.ok.inj h
      exact .inl he
  | cons event events ih =>
      rw [List.foldlM_cons] at h
      cases hadd : addEvent seen event with
      | error exc =>
          rw [hadd] at h
          cases h
      | ok next =>
          rw [hadd] at h
          rcases ih h with hnext | hrest
          · rcases mem_of_addEvent hadd hnext with hseen | rfl
            · exact .inl hseen
            · exact .inr List.mem_cons_self
          · exact .inr (List.mem_cons_of_mem _ hrest)

/-- What is kept are events, with every feedback id once, and one for each event. -/
theorem distinctEvents_ok (h : distinctEvents events = .ok seen) :
    (∀ e ∈ seen, e ∈ events) ∧ (seen.map (·.feedbackId)).Nodup ∧
      ∀ e ∈ events, ∃ kept ∈ seen, kept.canonical = e.canonical := by
  have hentries := distinctEvents_entries events
  rw [h] at hentries
  obtain ⟨hnodup, hmem, -⟩ := readDistinct_ok hentries.symm
  refine ⟨fun e he => (mem_of_foldlM h he).resolve_left List.not_mem_nil, ?_, fun e he => ?_⟩
  · rwa [List.map_map] at hnodup
  · obtain ⟨kept, hkept, heq⟩ := List.mem_map.mp ((hmem (entryOf e)).mpr ⟨e, he, rfl⟩)
    exact ⟨kept, hkept, (Prod.mk.inj heq).2⟩

/-! ## Order and repeats -/

/-- Equal events agree on whether they are measured, as all do whose noise band flag is a
boolean. -/
def AgreeOnMeasured (events : List FeedbackEvent) : Prop :=
  ∀ a ∈ events, ∀ b ∈ events, a.canonical = b.canonical → a.sample.measured = b.sample.measured

/-- Equal events that agree on being measured have one sample. -/
theorem sample_eq {a b : FeedbackEvent} (h : a.canonical = b.canonical)
    (hmeasured : a.sample.measured = b.sample.measured) : a.sample = b.sample := by
  obtain ⟨⟨aid, aact, asite, aurl, aquery, astatus, ametric, achange, aimp, areg, aev⟩,
    astrat, aopp, atype, aaction, asnap⟩ := a
  obtain ⟨⟨bid, bact, bsite, burl, bquery, bstatus, bmetric, bchange, bimp, breg, bev⟩,
    bstrat, bopp, btype, baction, bsnap⟩ := b
  simp only [FeedbackEvent.canonical, FeedbackEvent.mk.injEq, Ports.FeedbackEvent.mk.injEq] at h
  obtain ⟨⟨rfl, rfl, rfl, rfl, rfl, rfl, rfl, rfl, rfl, rfl, -⟩, rfl, rfl, rfl, rfl, rfl⟩ := h
  unfold FeedbackEvent.sample Sample.measured at *
  cases astatus with
  | success => simp
  | failure => simp
  | inconclusive => simpa using hmeasured

/-- The samples of two kept lists of the same events are the same but for their order. -/
theorem samples_perm (hagree : AgreeOnMeasured events) (hmem : ∀ e, e ∈ events ↔ e ∈ events')
    (h : distinctEvents events = .ok seen) (h' : distinctEvents events' = .ok seen') :
    (seen.map FeedbackEvent.sample).Perm (seen'.map FeedbackEvent.sample) := by
  obtain ⟨hsub, hnodup, hall⟩ := distinctEvents_ok h
  obtain ⟨hsub', hnodup', hall'⟩ := distinctEvents_ok h'
  have hsamples : ∀ {l : List FeedbackEvent}, (l.map (·.feedbackId)).Nodup →
      (l.map FeedbackEvent.sample).Nodup := by
    intro l hl
    refine List.Nodup.of_map Sample.feedbackId ?_
    rwa [List.map_map]
  refine (List.perm_ext_iff_of_nodup (hsamples hnodup) (hsamples hnodup')).mpr fun sample => ?_
  constructor
  · intro hs
    obtain ⟨e, he, rfl⟩ := List.mem_map.mp hs
    obtain ⟨kept, hkept, heq⟩ := hall' e ((hmem e).mp (hsub e he))
    exact List.mem_map.mpr ⟨kept, hkept, sample_eq heq
      (hagree kept ((hmem kept).mpr (hsub' kept hkept)) e (hsub e he) heq)⟩
  · intro hs
    obtain ⟨e, he, rfl⟩ := List.mem_map.mp hs
    obtain ⟨kept, hkept, heq⟩ := hall e ((hmem e).mpr (hsub' e he))
    exact List.mem_map.mpr ⟨kept, hkept, sample_eq heq
      (hagree kept (hsub kept hkept) e ((hmem e).mpr (hsub' e he)) heq)⟩

/-- The same events are refused alike. -/
theorem distinctEvents_isOk (hmem : ∀ e, e ∈ events ↔ e ∈ events')
    (h : distinctEvents events = .ok seen) : ∃ seen', distinctEvents events' = .ok seen' := by
  have hentries := distinctEvents_entries events
  rw [h] at hentries
  obtain ⟨r', hr', -⟩ := readDistinct_congr hmem hentries.symm
  rw [← distinctEvents_entries] at hr'
  cases hseen : distinctEvents events' with
  | error exc =>
      rw [hseen] at hr'
      cases hr'
  | ok seen' => exact ⟨seen', rfl⟩

/-- Events are refused for a conflict and for nothing else. -/
theorem distinctEvents_error {exc : Exc} (h : distinctEvents events = .error exc) :
    exc = conflict := by
  have hentries := distinctEvents_entries events
  rw [h] at hentries
  exact readOn_refused (fun e _ => ⟨_, rfl⟩) hentries.symm

/-! ## Groups and contexts of samples in another order -/

variable {samples samples' : List Sample}

/-- A list sorted by distinct ids is determined by its elements. -/
theorem byFeedbackId_congr (hnodup : (samples.map Sample.feedbackId).Nodup)
    (h : samples.Perm samples') : byFeedbackId samples = byFeedbackId samples' := by
  have hperm : (byFeedbackId samples).Perm (byFeedbackId samples') :=
    (List.perm_insertionSort _ _).trans (h.trans (List.perm_insertionSort _ _).symm)
  have hsorted : ∀ l : List Sample, (byFeedbackId l).Pairwise fun a b =>
      a.feedbackId ≤ b.feedbackId := fun l => List.pairwise_insertionSort _ l
  have hinj : ∀ a ∈ byFeedbackId samples, ∀ b ∈ byFeedbackId samples,
      a.feedbackId = b.feedbackId → a = b := by
    intro a ha b hb heq
    exact List.inj_on_of_nodup_map hnodup ((List.perm_insertionSort _ _).mem_iff.mp ha)
      ((List.perm_insertionSort _ _).mem_iff.mp hb) heq
  refine hperm.eq_of_pairwise (fun a b ha hb hab hba => ?_) (hsorted _) (hsorted _)
  exact hinj a ha b (hperm.mem_iff.mpr hb) (le_antisymm hab hba)

theorem buildPerformance_congr {minSamples : Nat}
    (hnodup : (samples.map Sample.feedbackId).Nodup) (h : samples.Perm samples') :
    buildPerformance minSamples samples = buildPerformance minSamples samples' := by
  unfold buildPerformance
  rw [byFeedbackId_congr hnodup h]

/-- The keys of the groups, in their order. -/
def sortedKeys (samples : List Sample) : List (String ×ₗ String ×ₗ String) :=
  (samples.map groupKey).dedup.insertionSort (· ≤ ·)

theorem groups_eq (samples : List Sample) :
    groups samples = (sortedKeys samples).map fun key =>
      samples.filter fun sample => groupKey sample = key := by
  unfold groups groupsOf sortedKeys
  rw [List.map_map, List.map_map]
  refine List.map_congr_left fun key _ => ?_
  dsimp only [Function.comp]
  rw [List.filter_map, List.map_map]
  exact List.map_id _

theorem sortedKeys_congr (h : samples.Perm samples') : sortedKeys samples = sortedKeys samples' := by
  have hperm : (sortedKeys samples).Perm (sortedKeys samples') :=
    (List.perm_insertionSort _ _).trans
      (((h.map groupKey).dedup).trans (List.perm_insertionSort _ _).symm)
  exact hperm.eq_of_pairwise (fun _ _ _ _ hab hba => le_antisymm hab hba)
    (List.pairwise_insertionSort _ _) (List.pairwise_insertionSort _ _)

/-- The context of samples does not depend on their order. -/
theorem contextOf_congr {contextId : String} {minSamples : Int}
    (hnodup : (samples.map Sample.feedbackId).Nodup) (h : samples.Perm samples') :
    contextOf contextId minSamples samples = contextOf contextId minSamples samples' := by
  have hperformances : (groups samples).filterMap (buildPerformance minSamples.toNat) =
      (groups samples').filterMap (buildPerformance minSamples.toNat) := by
    rw [groups_eq, groups_eq, List.filterMap_map, List.filterMap_map, sortedKeys_congr h]
    refine List.filterMap_congr fun key _ => ?_
    refine buildPerformance_congr ?_ (h.filter _)
    exact hnodup.sublist (List.filter_sublist.map _)
  unfold contextOf
  simp only [hperformances, h.length_eq]

/-- Neither the order of the events nor repeats matter. -/
theorem buildLearningContext_congr (contextId : String) (minSamples : Int)
    (hagree : AgreeOnMeasured events) (hmem : ∀ e, e ∈ events ↔ e ∈ events') :
    buildLearningContext contextId events minSamples =
      buildLearningContext contextId events' minSamples := by
  unfold buildLearningContext
  split
  · rfl
  cases h : distinctEvents events with
  | error exc =>
      cases h' : distinctEvents events' with
      | error exc' => rw [distinctEvents_error h, distinctEvents_error h']
      | ok seen' =>
          obtain ⟨seen, hseen⟩ := distinctEvents_isOk (fun e => (hmem e).symm) h'
          rw [h] at hseen
          cases hseen
  | ok seen =>
      obtain ⟨seen', h'⟩ := distinctEvents_isOk hmem h
      rw [h']
      have hnodup : ((seen.map FeedbackEvent.sample).map Sample.feedbackId).Nodup := by
        rw [List.map_map]
        exact (distinctEvents_ok h).2.1
      exact congrArg Except.ok (contextOf_congr hnodup (samples_perm hagree hmem h h'))

end SeoAgent.Learning
