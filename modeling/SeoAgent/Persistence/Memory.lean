import SeoAgent.Persistence.Records
import SeoAgent.Verified.Keyset

/-!
# The repository in memory

`InMemoryRepository` (`app/persistence/memory.py`): a dictionary of the latest version of
each aggregate, in the order their keys were first set, and the identity each record id
was used for.

## Main results

* `query_eq_page` — a query is a page of the records in its scope.
-/

namespace SeoAgent.Persistence

open SeoAgent.Verified

variable {π : Type}

/-- The latest record of each aggregate, and what each record id was used for. -/
structure InMemoryRepository (π : Type) where
  records : List (PersistenceRecord π)
  recordIds : List (String × String × String × Nat)
  distinct : (records.map PersistenceRecord.key).Nodup

namespace InMemoryRepository

def empty : InMemoryRepository π := ⟨[], [], List.nodup_nil⟩

/-- The latest record of an aggregate. -/
def get (repository : InMemoryRepository π) (aggregateType aggregateId : String) :
    Option (PersistenceRecord π) :=
  repository.records.find? fun record => record.key = (aggregateType, aggregateId)

/-! ## Writes -/

/-- `_claim_record_id`: the record ids afterwards. -/
def claimRecordId (repository : InMemoryRepository π) (record : PersistenceRecord π) :
    Except PersistenceError (List (String × String × String × Nat)) :=
  match repository.recordIds.lookup record.recordId with
  | some owner =>
      if owner ≠ record.identity then
        .error (.persistenceConflictError
          s!"record_id is already used by another row: {record.recordId}. Every version needs its own record_id.")
      else .ok repository.recordIds
  | none => .ok ((record.recordId, record.identity) :: repository.recordIds)

def create (repository : InMemoryRepository π) (record : PersistenceRecord π) :
    Except PersistenceError (InMemoryRepository π) :=
  if h : record.key ∈ repository.records.map PersistenceRecord.key then
    .error (.persistenceConflictError
      s!"aggregate already exists: {record.aggregateType}:{record.aggregateId}")
  else
    (claimRecordId repository record).map fun recordIds =>
      { records := repository.records ++ [record]
        recordIds
        distinct := by
          rw [List.map_append, List.map_singleton]
          exact List.nodup_append.mpr ⟨repository.distinct, List.nodup_singleton _,
            fun a ha b hb => List.mem_singleton.mp hb ▸ fun heq => h (heq ▸ ha)⟩ }

/-- `_records[key] = record`, of a key that is there. -/
def overwrite (record : PersistenceRecord π) (records : List (PersistenceRecord π)) :
    List (PersistenceRecord π) :=
  records.map fun current => if current.key = record.key then record else current

theorem map_key_overwrite (record : PersistenceRecord π)
    (records : List (PersistenceRecord π)) :
    (overwrite record records).map PersistenceRecord.key =
      records.map PersistenceRecord.key := by
  unfold overwrite
  rw [List.map_map]
  refine List.map_congr_left fun current _ => ?_
  simp only [Function.comp_apply]
  split
  · next h => exact h.symm
  · rfl

/-- An overwritten record takes the place of the one that was there. -/
theorem mem_overwrite {record : PersistenceRecord π} {records : List (PersistenceRecord π)}
    (h : ∃ current ∈ records, current.key = record.key) {other : PersistenceRecord π} :
    other ∈ overwrite record records ↔
      other = record ∨ (other ∈ records ∧ other.key ≠ record.key) := by
  unfold overwrite
  rw [List.mem_map]
  constructor
  · intro ⟨current, hmem, hother⟩
    by_cases hkey : current.key = record.key
    · exact .inl (hother.symm.trans (if_pos hkey))
    · rw [if_neg hkey] at hother
      exact .inr (hother ▸ ⟨hmem, hkey⟩)
  · intro hother
    rcases hother with rfl | ⟨hmem, hne⟩
    · obtain ⟨current, hmem, hkey⟩ := h
      exact ⟨current, hmem, if_pos hkey⟩
    · exact ⟨other, hmem, if_neg hne⟩

def replace (repository : InMemoryRepository π) (record : PersistenceRecord π)
    (expectedVersion : Int) : Except PersistenceError (InMemoryRepository π) :=
  match repository.get record.aggregateType record.aggregateId with
  | none =>
      .error (.persistenceNotFoundError
        s!"aggregate not found: {record.aggregateType}:{record.aggregateId}")
  | some current =>
      if current.tenantId ≠ record.tenantId then
        .error (.persistenceConflictError
          s!"aggregate tenant is immutable: {record.aggregateType}:{record.aggregateId}")
      else if current.version ≠ expectedVersion then
        .error (.persistenceConflictError
          s!"optimistic concurrency conflict: expected version {expectedVersion}, found {current.version}")
      else if record.version ≠ expectedVersion + 1 then
        .error (.persistenceConflictError
          s!"replacement version must increment by exactly one: expected {expectedVersion + 1}, found {record.version}")
      else
        (claimRecordId repository record).map fun recordIds =>
          { records := overwrite record repository.records
            recordIds
            distinct := (map_key_overwrite record repository.records) ▸ repository.distinct }

/-! ## Listings -/

/-- What `list` orders by. -/
def listKey (record : PersistenceRecord π) : String ×ₗ String ×ₗ Nat :=
  toLex (record.aggregateType, toLex (record.aggregateId, record.version))

def list (repository : InMemoryRepository π) (aggregateType : Option String)
    (limit : Option Int) : Except PersistenceError (List (PersistenceRecord π)) :=
  if limit.any (· < 1) then .error (.valueError "limit must be >= 1")
  else
    let records := (repository.records.filter fun record =>
      aggregateType.all (record.aggregateType = ·)).insertionSort
        fun a b => listKey a ≤ listKey b
    .ok (match limit with
      | none => records
      | some limit => records.take limit.toNat)

def query (repository : InMemoryRepository π) (q : Query) :
    Except PersistenceError (RecordPage π) := do
  q.check
  let records := Keyset.newestFirst PersistenceRecord.sortKey
    (repository.records.filter q.inScope)
  let cursor ← q.cursorKey
  let records := Keyset.below PersistenceRecord.sortKey cursor records
  let page := records.take q.limit.toNat
  pure
    { records := page
      nextCursor := if q.limit.toNat < records.length then
        page.getLast?.map fun last => encodeCursor last.sortKey else none }

/-- A query with a cursor is a page of the records in its scope. -/
theorem query_eq_page (repository : InMemoryRepository π) {q : Query}
    {cursor : Option (Datetime ×ₗ String)} (hcheck : q.check = .ok ())
    (hcursor : q.cursorKey = .ok cursor) :
    repository.query q = .ok
      (let page := Keyset.page PersistenceRecord.sortKey q.limit.toNat cursor
        (repository.records.filter q.inScope)
      { records := page.1, nextCursor := page.2.map encodeCursor }) := by
  unfold query
  rw [hcheck, hcursor]
  simp only [Keyset.page]
  split
  · next h =>
      rw [Option.map_map]
      simp only [bind, Except.bind, if_pos h]
      rfl
  · next h =>
      simp only [bind, Except.bind, if_neg h]
      rfl

end InMemoryRepository

end SeoAgent.Persistence
