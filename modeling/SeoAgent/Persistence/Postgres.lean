import SeoAgent.Persistence.Memory

/-!
# The repository in PostgreSQL

`PostgresRepository` (`app/persistence/postgres.py`) over the table of
`migrations/001_persistence_foundation.sql`: an append-only list of rows with the two
unique constraints. Texts are ordered by code point, as the deterministic collation of
the deployment has them. In which order rows come that a sort leaves tied is up to the
server, and is a parameter (`SortPlan`).

## Main results

* `mem_distinctOn` — what `DISTINCT ON` keeps.
* `query_eq_page` — a query is a page of the newest rows in its scope.
-/

namespace SeoAgent.Persistence

open SeoAgent.Verified

variable {π : Type}

/-- The table of records. -/
structure PostgresRepository (π : Type) where
  rows : List (PersistenceRecord π)
  primaryKey : (rows.map PersistenceRecord.identity).Nodup
  recordIdUnique : (rows.map PersistenceRecord.recordId).Nodup

/-- The order in which rows reach a sort. -/
structure SortPlan (π : Type) where
  order : List (PersistenceRecord π) → List (PersistenceRecord π)
  perm : ∀ rows, (order rows).Perm rows

namespace PostgresRepository

def empty : PostgresRepository π := ⟨[], List.nodup_nil, List.nodup_nil⟩

/-! ## Tables -/

/-- A constraint a row would violate. -/
inductive UniqueViolation
  | primaryKey
  | recordIdUnique

/-- `INSERT INTO persistence_records`. -/
def insert (repository : PostgresRepository π) (record : PersistenceRecord π) :
    Except UniqueViolation (PostgresRepository π) :=
  if hkey : record.identity ∈ repository.rows.map PersistenceRecord.identity then
    .error .primaryKey
  else if hid : record.recordId ∈ repository.rows.map PersistenceRecord.recordId then
    .error .recordIdUnique
  else .ok
    { rows := repository.rows ++ [record]
      primaryKey := by
        rw [List.map_append, List.map_singleton]
        exact List.nodup_append.mpr ⟨repository.primaryKey, List.nodup_singleton _,
          fun a ha b hb => List.mem_singleton.mp hb ▸ fun heq => hkey (heq ▸ ha)⟩
      recordIdUnique := by
        rw [List.map_append, List.map_singleton]
        exact List.nodup_append.mpr ⟨repository.recordIdUnique, List.nodup_singleton _,
          fun a ha b hb => List.mem_singleton.mp hb ▸ fun heq => hid (heq ▸ ha)⟩ }

/-- No row of the same aggregate has a greater version. -/
def newestIn (rows : List (PersistenceRecord π)) (record : PersistenceRecord π) : Bool :=
  rows.all fun row => row.key ≠ record.key || row.version ≤ record.version

/-- `SELECT DISTINCT ON (aggregate_type, aggregate_id) ...
ORDER BY aggregate_type, aggregate_id, version DESC`. -/
def distinctOn (rows : List (PersistenceRecord π)) : List (PersistenceRecord π) :=
  (rows.filter (newestIn rows)).insertionSort fun a b => toLex a.key ≤ toLex b.key

/-- The rows of an aggregate. -/
def ofAggregate (repository : PostgresRepository π) (key : String × String) :
    List (PersistenceRecord π) :=
  repository.rows.filter fun row => row.key = key

/-- `ORDER BY version DESC LIMIT 1`, of the rows of an aggregate. -/
def get (repository : PostgresRepository π) (aggregateType aggregateId : String) :
    Option (PersistenceRecord π) :=
  (distinctOn (repository.ofAggregate (aggregateType, aggregateId))).head?

/-! ## Writes -/

def create (repository : PostgresRepository π) (record : PersistenceRecord π) :
    Except PersistenceError (PostgresRepository π) :=
  match repository.insert record with
  | .ok repository => .ok repository
  | .error .recordIdUnique =>
      .error (.persistenceConflictError
        s!"record_id is already used by another row: {record.recordId}. Every version needs its own record_id.")
  | .error .primaryKey =>
      .error (.persistenceConflictError
        s!"aggregate/version already exists: {record.aggregateType}:{record.aggregateId}:v{record.version}")

/-- The condition of the insert of a replacement: there is a row of the expected
version, and it is the newest. -/
def replaces (repository : PostgresRepository π) (record : PersistenceRecord π)
    (expectedVersion : Int) : Bool :=
  let rows := repository.ofAggregate record.key
  rows.any (fun row => row.version = expectedVersion) &&
    record.version = (rows.map PersistenceRecord.version).foldl max 0 + 1

def replace (repository : PostgresRepository π) (record : PersistenceRecord π)
    (expectedVersion : Int) : Except PersistenceError (PostgresRepository π) :=
  if record.version ≠ expectedVersion + 1 then
    .error (.persistenceConflictError "Replacement must increment expected version by one.")
  else if (repository.get record.aggregateType record.aggregateId).any
      (fun current => current.tenantId ≠ record.tenantId) then
    .error (.persistenceConflictError
      s!"aggregate tenant is immutable: {record.aggregateType}:{record.aggregateId}")
  else if repository.replaces record expectedVersion then
    match repository.insert record with
    | .ok repository => .ok repository
    | .error .recordIdUnique =>
        .error (.persistenceConflictError
          s!"record_id is already used by another row: {record.recordId}. Every version needs its own record_id.")
    | .error .primaryKey =>
        .error (.persistenceConflictError "optimistic concurrency conflict")
  else if repository.ofAggregate record.key = [] then
    .error (.persistenceNotFoundError
      s!"aggregate not found: {record.aggregateType}:{record.aggregateId}")
  else .error (.persistenceConflictError "optimistic concurrency conflict")

/-! ## Listings -/

def list (repository : PostgresRepository π) (aggregateType : Option String)
    (limit : Option Int) : Except PersistenceError (List (PersistenceRecord π)) :=
  if limit.any (· < 1) then .error (.valueError "limit must be >= 1")
  else
    let rows := distinctOn (repository.rows.filter fun row =>
      aggregateType.all (row.aggregateType = ·))
    .ok (match limit with
      | none => rows
      | some limit => rows.take limit.toNat)

def query (plan : SortPlan π) (repository : PostgresRepository π) (q : Query) :
    Except PersistenceError (RecordPage π) := do
  q.check
  let cursor ← q.cursorKey
  let latest := distinctOn (repository.rows.filter q.inScope)
  let kept := Keyset.below PersistenceRecord.sortKey cursor latest
  let rows := (Keyset.newestFirst PersistenceRecord.sortKey (plan.order kept)).take
    (q.limit.toNat + 1)
  let records := rows.take q.limit.toNat
  pure
    { records
      nextCursor := if q.limit.toNat < rows.length then
        records.getLast?.map fun last => encodeCursor last.sortKey else none }

/-! ## What the listings are -/

section Listings
variable {rows : List (PersistenceRecord π)}

/-- `DISTINCT ON` keeps the newest row of each aggregate. -/
theorem mem_distinctOn {record : PersistenceRecord π} :
    record ∈ distinctOn rows ↔ record ∈ rows ∧
      ∀ row ∈ rows, row.key = record.key → row.version ≤ record.version := by
  simp only [distinctOn, List.mem_insertionSort, List.mem_filter, newestIn, List.all_eq_true,
    Bool.or_eq_true, decide_eq_true_eq]
  exact and_congr_right fun _ => forall_congr' fun row => imp_congr_right fun _ =>
    ⟨fun h hkey => h.resolve_left (not_not_intro hkey), fun h => or_iff_not_imp_left.mpr
      fun hne => h (not_not.mp hne)⟩

theorem eq_of_identity {a b : PersistenceRecord π}
    (h : (rows.map PersistenceRecord.identity).Nodup) (ha : a ∈ rows) (hb : b ∈ rows)
    (hkey : a.key = b.key) (hversion : a.version = b.version) : a = b := by
  refine List.inj_on_of_nodup_map h ha hb ?_
  obtain ⟨htype, hid⟩ := Prod.mk.inj hkey
  simp only [PersistenceRecord.identity, htype, hid, hversion]

/-- It keeps one row of each aggregate. -/
theorem distinctOn_nodup (h : (rows.map PersistenceRecord.identity).Nodup) :
    ((distinctOn rows).map PersistenceRecord.key).Nodup := by
  have hrows : (distinctOn rows).Nodup :=
    (List.perm_insertionSort _ _).nodup_iff.mpr ((List.Nodup.of_map _ h).filter _)
  refine List.Nodup.map_on (fun a ha b hb hkey => ?_) hrows
  obtain ⟨ha, hamax⟩ := mem_distinctOn.mp ha
  obtain ⟨hb, hbmax⟩ := mem_distinctOn.mp hb
  exact eq_of_identity h ha hb hkey
    (le_antisymm (hbmax a ha hkey) (hamax b hb hkey.symm))

/-- A query with a cursor is a page of the newest rows in its scope, when no two of
them are tied. -/
theorem query_eq_page (plan : SortPlan π) (repository : PostgresRepository π) {q : Query}
    {cursor : Option (Datetime ×ₗ String)} (hcheck : q.check = .ok ())
    (hcursor : q.cursorKey = .ok cursor)
    (hties : ((distinctOn (repository.rows.filter q.inScope)).map
      PersistenceRecord.sortKey).Nodup) :
    repository.query plan q = .ok
      (let page := Keyset.page PersistenceRecord.sortKey q.limit.toNat cursor
        (distinctOn (repository.rows.filter q.inScope))
      { records := page.1, nextCursor := page.2.map encodeCursor }) := by
  have hsort := Keyset.newestFirst_below (plan.perm (Keyset.below PersistenceRecord.sortKey cursor _)) hties
  unfold query
  rw [hcheck, hcursor]
  simp only [bind, Except.bind, hsort, Keyset.page, List.take_take, List.length_take,
    lt_min_iff, Nat.lt_succ_self, true_and, Nat.min_eq_left (Nat.le_succ q.limit.toNat)]
  split
  · next h =>
      rw [Option.map_map]
      rfl
  · rfl

end Listings

end PostgresRepository

end SeoAgent.Persistence
