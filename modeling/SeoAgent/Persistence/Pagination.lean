import SeoAgent.Persistence.Postgres

/-!
# Every record once

Following `next_cursor` from the first page to the last, over either repository, while
newer records are written between the pages. For one aggregate type no two records of a
listing are tied, so the keys of the pages order them strictly.

## Main results

* `pages_complete` — what the pages show, all together.
-/

namespace SeoAgent.Persistence

open SeoAgent.Verified Keyset

variable {π : Type}

/-! ## Following the cursors -/

/-- The answers of a repository to one query, each time with the cursor of the page
before. -/
abbrev Answers (π : Type) : Type :=
  Nat → Option String → Except PersistenceError (RecordPage π)

/-- The records of all pages, when they end after so many. -/
def allPages (answers : Answers π) (pages : Nat) :
    Except PersistenceError (Option (List (PersistenceRecord π))) :=
  follow (fun i cursor => (answers i cursor).map fun page => (page.records, page.nextCursor))
    pages 0 none

/-- The pages end, in strictly descending order, and show every record that stays in
the listing exactly once. -/
def Complete (listing : Nat → List (PersistenceRecord π)) (answers : Answers π) : Prop :=
  ∃ pages all, allPages answers pages = .ok (some all) ∧
    all.Pairwise (fun a b => b.sortKey < a.sortKey) ∧ all.Nodup ∧
    (∀ record ∈ all, ∃ i, record ∈ listing i) ∧
    ∀ record, (∀ i, record ∈ listing i) → record ∈ all

/-- The cursor of a record, as the argument of the next query. -/
theorem cursorKey_map {listing : Nat → List (PersistenceRecord π)} {q : Query}
    {cursor : Option (Datetime ×ₗ String)}
    (h : Carries PersistenceRecord.sortKey listing cursor) :
    Query.cursorKey { q with cursor := cursor.map encodeCursor } = .ok cursor := by
  cases cursor with
  | none => rfl
  | some k =>
      obtain ⟨i, record, -, rfl⟩ := h k rfl
      simp only [Query.cursorKey, Option.map_some, decodeCursor_sortKey]
      rfl

/-- Answers that are pages of listings without ties. -/
theorem complete_of_pages {listing : Nat → List (PersistenceRecord π)} {answers : Answers π}
    {limit : Nat} (hlimit : 0 < limit)
    (hkeys : ∀ i, ((listing i).map PersistenceRecord.sortKey).Nodup)
    (hnewer : OnlyNewer PersistenceRecord.sortKey listing)
    (hpages : ∀ i cursor, Carries PersistenceRecord.sortKey listing cursor →
      answers i (cursor.map encodeCursor) = .ok
        { records := (page PersistenceRecord.sortKey limit cursor (listing i)).1
          nextCursor :=
            (page PersistenceRecord.sortKey limit cursor (listing i)).2.map encodeCursor }) :
    Complete listing answers := by
  have hshows : Shows PersistenceRecord.sortKey encodeCursor limit listing
      fun i cursor => (answers i cursor).map fun page => (page.records, page.nextCursor) := by
    intro i cursor hcursor
    dsimp only
    rw [hpages i cursor hcursor]
    rfl
  obtain ⟨pages, all, hall, hsorted, hfound, hcomplete⟩ :=
    follow_complete hlimit hkeys hnewer hshows
  have hnodup : all.Nodup := hsorted.imp fun {a b} hlt heq => by
    rw [heq] at hlt
    exact lt_irrefl _ hlt
  exact ⟨pages, all, hall, hsorted, hnodup, hfound, hcomplete⟩

/-- Among records of one aggregate type different aggregates are not tied. -/
theorem sortKey_nodup {records : List (PersistenceRecord π)} {aggregateType : String}
    (hkeys : (records.map PersistenceRecord.key).Nodup)
    (htype : ∀ record ∈ records, record.aggregateType = aggregateType) :
    (records.map PersistenceRecord.sortKey).Nodup := by
  refine List.Nodup.map_on (fun a ha b hb hsort => ?_) (List.Nodup.of_map _ hkeys)
  refine List.inj_on_of_nodup_map hkeys ha hb (Prod.ext ?_ ?_)
  · exact (htype a ha).trans (htype b hb).symm
  · exact congrArg (fun k => (ofLex k).2) hsort

theorem Query.inScope_type {q : Query} {aggregateType : String}
    (htype : q.aggregateType = some aggregateType) {record : PersistenceRecord π}
    (h : q.inScope record) : record.aggregateType = aggregateType := by
  simp only [Query.inScope, htype, Option.all_some, Bool.and_eq_true, decide_eq_true_eq] at h
  exact h.1.2

theorem Query.check_ok {q : Query} (htenant : Text.strip q.tenantId ≠ "")
    (hlimit : 1 ≤ q.limit ∧ q.limit ≤ 500) : q.check = .ok () := by
  unfold Query.check
  rw [if_neg htenant, if_neg (by omega)]

/-! ## The two repositories -/

/-- Following the cursors of one query over either repository ends, whatever newer
records are written between the pages, and shows every record that stays exactly once,
in strictly descending order of time and id. -/
theorem pages_complete {q : Query} {aggregateType : String}
    (htenant : Text.strip q.tenantId ≠ "") (htype : q.aggregateType = some aggregateType)
    (hlimit : 1 ≤ q.limit ∧ q.limit ≤ 500) :
    (∀ states : Nat → InMemoryRepository π,
      OnlyNewer PersistenceRecord.sortKey (fun i => (states i).records.filter q.inScope) →
      Complete (fun i => (states i).records.filter q.inScope)
        fun i cursor => (states i).query { q with cursor }) ∧
    ∀ (states : Nat → PostgresRepository π) (plans : Nat → SortPlan π),
      OnlyNewer PersistenceRecord.sortKey
        (fun i => PostgresRepository.distinctOn ((states i).rows.filter q.inScope)) →
      Complete (fun i => PostgresRepository.distinctOn ((states i).rows.filter q.inScope))
        fun i cursor => (states i).query (plans i) { q with cursor } := by
  have hcheck : ∀ cursor, Query.check { q with cursor } = .ok () :=
    fun cursor => Query.check_ok htenant hlimit
  have hpositive : 0 < q.limit.toNat := by omega
  constructor
  · intro states hnewer
    have hkeys : ∀ i, (((states i).records.filter q.inScope).map
        PersistenceRecord.sortKey).Nodup := fun i =>
      sortKey_nodup ((states i).distinct.sublist (List.filter_sublist.map _))
        fun record hr => q.inScope_type htype (List.mem_filter.mp hr).2
    exact complete_of_pages hpositive hkeys hnewer fun i cursor hcursor =>
      (states i).query_eq_page (hcheck _) (cursorKey_map hcursor)
  · intro states plans hnewer
    have hkeys : ∀ i, ((PostgresRepository.distinctOn
        ((states i).rows.filter q.inScope)).map PersistenceRecord.sortKey).Nodup := fun i =>
      sortKey_nodup (PostgresRepository.distinctOn_nodup
        ((states i).primaryKey.sublist (List.filter_sublist.map _))) fun record hr =>
        q.inScope_type htype (List.mem_filter.mp (PostgresRepository.mem_distinctOn.mp hr).1).2
    exact complete_of_pages hpositive hkeys hnewer fun i cursor hcursor =>
      PostgresRepository.query_eq_page (plans i) (states i) (hcheck _)
        (cursorKey_map hcursor) (hkeys i)

/-- The first moment of 2026. -/
def newYear : Datetime := ⟨⟨2026, 1, 1, 0, 0, 0, 0⟩, by decide⟩

/-- A payment of a tenant, written at some time. -/
def paymentRecord (aggregateId : String) (createdAt : Datetime) (h : aggregateId ≠ "") :
    PersistenceRecord Unit :=
  { recordId := aggregateId, aggregateType := "payment", aggregateId
    payload := (), createdAt, tenantId := some "t-1"
    valid := ⟨⟨h, by decide, h⟩, by decide, by decide⟩ }

/-- Two payments written at the same time. -/
def tiedPayments : InMemoryRepository Unit where
  records := [paymentRecord "pay-1" newYear (by decide), paymentRecord "pay-2" newYear (by decide)]
  recordIds := []
  distinct := by decide

/-- One payment a page. -/
def onePayment : Query := { tenantId := "t-1", aggregateType := some "payment", limit := 1 }

theorem pages_complete_tied :
    Complete (fun _ => tiedPayments.records.filter onePayment.inScope)
      fun _ cursor => tiedPayments.query { onePayment with cursor } :=
  (pages_complete (q := onePayment) (by decide) rfl (by decide)).1 (fun _ => tiedPayments)
    fun _ _ hx => .inl hx

end SeoAgent.Persistence
