import Mathlib.Data.List.Fold
import Mathlib.Data.List.MinMax
import SeoAgent.Persistence.Pagination

/-!
# Two repositories, one contract

Unit tests run on `InMemoryRepository` and production on `PostgresRepository`. Both
answer the same calls here, step by step, with a write's record, a reading, or the class
of the error. The relation between them is that the dictionary holds the newest row of
each aggregate, that the record ids claimed are the ones of the rows, and that the rows
of one aggregate have one tenant.

Four calls are answered differently. `create` of a version the table does not have yet
is an insert like any other, `replace` of an aggregate that is not there names the wrong
version first, a query by site shows the last row an aggregate had in a site it has
left, and rows of one time and id come in any order.

## Main results

* `agrees_step` — one call, answered alike.
* `repositories_agree` — every run of such calls is answered alike.
-/

namespace SeoAgent.Persistence

open SeoAgent.Verified

variable {π : Type}

/-! ## Calls -/

/-- A call of the repository contract. -/
inductive Call (π : Type)
  | create (record : PersistenceRecord π)
  | replace (record : PersistenceRecord π) (expectedVersion : Int)
  | get (aggregateType aggregateId : String)
  | list (aggregateType : Option String) (limit : Option Int)
  | query (q : Query)

/-- What a call returns. -/
inductive Answer (π : Type)
  | written (record : PersistenceRecord π)
  | found (record : Option (PersistenceRecord π))
  | listed (records : List (PersistenceRecord π))
  | page (page : RecordPage π)
  deriving DecidableEq

/-- What a caller can tell: the value, or the class of the error. -/
abbrev Observed (π : Type) : Type := Except ErrorClass (Answer π)

/-- A read, observed. -/
def observed {α : Type} (answer : α → Answer π) (result : Except PersistenceError α) :
    Observed π :=
  (result.map answer).mapError PersistenceError.errorClass

/-- The state after a write, and what its caller sees. -/
def afterWrite {σ : Type} (before : σ) (record : PersistenceRecord π)
    (result : Except PersistenceError σ) : σ × Observed π :=
  match result with
  | .ok after => (after, .ok (.written record))
  | .error e => (before, .error e.errorClass)

def InMemoryRepository.call (repository : InMemoryRepository π) :
    Call π → InMemoryRepository π × Observed π
  | .create record => afterWrite repository record (repository.create record)
  | .replace record expectedVersion =>
      afterWrite repository record (repository.replace record expectedVersion)
  | .get aggregateType aggregateId =>
      (repository, .ok (.found (repository.get aggregateType aggregateId)))
  | .list aggregateType limit =>
      (repository, observed .listed (repository.list aggregateType limit))
  | .query q => (repository, observed .page (repository.query q))

def PostgresRepository.call (plan : SortPlan π) (repository : PostgresRepository π) :
    Call π → PostgresRepository π × Observed π
  | .create record => afterWrite repository record (repository.create record)
  | .replace record expectedVersion =>
      afterWrite repository record (repository.replace record expectedVersion)
  | .get aggregateType aggregateId =>
      (repository, .ok (.found (repository.get aggregateType aggregateId)))
  | .list aggregateType limit =>
      (repository, observed .listed (repository.list aggregateType limit))
  | .query q => (repository, observed .page (repository.query plan q))

/-- What the calls of a run show, one after the other. -/
def InMemoryRepository.run (repository : InMemoryRepository π) :
    List (Call π) → List (Observed π)
  | [] => []
  | c :: calls => (repository.call c).2 :: (repository.call c).1.run calls

/-- The same; each call comes with the order its sorts leave open. -/
def PostgresRepository.run (repository : PostgresRepository π) :
    List (SortPlan π × Call π) → List (Observed π)
  | [] => []
  | (plan, c) :: calls => (repository.call plan c).2 :: (repository.call plan c).1.run calls

/-! ## Calls that are answered alike -/

/-- An aggregate has a row. -/
def PostgresRepository.Has (repository : PostgresRepository π) (key : String × String) : Prop :=
  ∃ row ∈ repository.rows, row.key = key

/-- An aggregate that has a row in the scope of a query is in that scope. -/
def PostgresRepository.StaysIn (repository : PostgresRepository π) (q : Query) : Prop :=
  ∀ row ∈ repository.rows, q.inScope row →
    ∀ newest ∈ PostgresRepository.distinctOn repository.rows, newest.key = row.key →
      q.inScope newest

/-- No two aggregates in the scope of a query have one time and one id. -/
def PostgresRepository.Untied (repository : PostgresRepository π) (q : Query) : Prop :=
  ((PostgresRepository.distinctOn (repository.rows.filter q.inScope)).map
    PersistenceRecord.sortKey).Nodup

/-- The calls both repositories answer alike, by the rows there are. -/
def PostgresRepository.Alike (repository : PostgresRepository π) : Call π → Prop
  | .create record => repository.Has record.key →
      record.identity ∈ repository.rows.map PersistenceRecord.identity ∨
        record.recordId ∈ repository.rows.map PersistenceRecord.recordId
  | .replace record expectedVersion =>
      repository.Has record.key ∨ record.version = expectedVersion + 1
  | .get _ _ => True
  | .list _ _ => True
  | .query q => (q.check.isOk ∧ q.cursorKey.isOk) → repository.StaysIn q ∧ repository.Untied q

instance (repository : PostgresRepository π) (key : String × String) :
    Decidable (repository.Has key) :=
  inferInstanceAs (Decidable (∃ row ∈ repository.rows, row.key = key))

instance (repository : PostgresRepository π) (q : Query) : Decidable (repository.StaysIn q) :=
  inferInstanceAs (Decidable (∀ row ∈ repository.rows, q.inScope row →
    ∀ newest ∈ PostgresRepository.distinctOn repository.rows, newest.key = row.key →
      q.inScope newest))

instance (repository : PostgresRepository π) (q : Query) : Decidable (repository.Untied q) :=
  inferInstanceAs (Decidable (List.Nodup _))

instance (repository : PostgresRepository π) (c : Call π) : Decidable (repository.Alike c) :=
  match c with
  | .create record => inferInstanceAs (Decidable (repository.Has record.key →
      record.identity ∈ repository.rows.map PersistenceRecord.identity ∨
        record.recordId ∈ repository.rows.map PersistenceRecord.recordId))
  | .replace record expectedVersion => inferInstanceAs (Decidable
      (repository.Has record.key ∨ record.version = expectedVersion + 1))
  | .get _ _ => .isTrue trivial
  | .list _ _ => .isTrue trivial
  | .query q => inferInstanceAs (Decidable ((q.check.isOk ∧ q.cursorKey.isOk) →
      repository.StaysIn q ∧ repository.Untied q))

/-- Every call of a run is such a call when it is made. -/
def PostgresRepository.AllAlike (repository : PostgresRepository π) :
    List (SortPlan π × Call π) → Prop
  | [] => True
  | (plan, c) :: calls => repository.Alike c ∧ (repository.call plan c).1.AllAlike calls

instance PostgresRepository.decidableAllAlike (repository : PostgresRepository π)
    (calls : List (SortPlan π × Call π)) : Decidable (repository.AllAlike calls) :=
  match calls with
  | [] => .isTrue trivial
  | (plan, c) :: calls =>
      have : Decidable ((repository.call plan c).1.AllAlike calls) :=
        PostgresRepository.decidableAllAlike (repository.call plan c).1 calls
      inferInstanceAs (Decidable (repository.Alike c ∧ (repository.call plan c).1.AllAlike calls))

/-! ## The relation -/

/-- The dictionary is the latest view of the table. -/
structure Agrees (memory : InMemoryRepository π) (table : PostgresRepository π) : Prop where
  latest : ∀ record, record ∈ memory.records ↔
    record ∈ PostgresRepository.distinctOn table.rows
  claimed : ∀ recordId owner, memory.recordIds.lookup recordId = some owner ↔
    ∃ row ∈ table.rows, row.recordId = recordId ∧ row.identity = owner
  oneTenant : ∀ a ∈ table.rows, ∀ b ∈ table.rows, a.key = b.key → a.tenantId = b.tenantId

theorem agrees_empty :
    Agrees (InMemoryRepository.empty : InMemoryRepository π) PostgresRepository.empty where
  latest _ := Iff.rfl
  claimed _ _ := by simp [InMemoryRepository.empty, PostgresRepository.empty]
  oneTenant _ ha := by cases ha

/-! ## Newest rows -/

section Rows
variable {rows : List (PersistenceRecord π)}

open PostgresRepository

/-- Each row's aggregate has a newest row. -/
theorem exists_newest {row : PersistenceRecord π} (h : row ∈ rows) :
    ∃ newest ∈ distinctOn rows, newest.key = row.key ∧ row.version ≤ newest.version := by
  have hrow : row ∈ rows.filter (fun r => r.key = row.key) :=
    List.mem_filter.mpr ⟨h, decide_eq_true rfl⟩
  obtain ⟨newest, hnewest⟩ : ∃ newest, newest ∈
      List.argmax PersistenceRecord.version (rows.filter fun r => r.key = row.key) :=
    Option.ne_none_iff_exists'.mp fun hnone =>
      List.ne_nil_of_mem hrow (List.argmax_eq_none.mp hnone)
  obtain ⟨hmem, hkey⟩ := List.mem_filter.mp (List.argmax_mem hnewest)
  have hkey : newest.key = row.key := of_decide_eq_true hkey
  refine ⟨newest, mem_distinctOn.mpr ⟨hmem, fun other hother hsame => ?_⟩, hkey,
    List.le_of_mem_argmax hrow hnewest⟩
  exact List.le_of_mem_argmax
    (List.mem_filter.mpr ⟨hother, decide_eq_true (hsame.trans hkey)⟩) hnewest

/-- Restricting to rows whose aggregate's newest row is kept restricts the view. -/
theorem mem_distinctOn_filter {f : PersistenceRecord π → Bool}
    (hrows : (rows.map PersistenceRecord.identity).Nodup)
    (hf : ∀ row ∈ rows, f row → ∀ newest ∈ distinctOn rows, newest.key = row.key → f newest)
    {record : PersistenceRecord π} :
    record ∈ distinctOn (rows.filter f) ↔ record ∈ distinctOn rows ∧ f record := by
  constructor
  · intro h
    obtain ⟨hmem, hmax⟩ := mem_distinctOn.mp h
    obtain ⟨hmem, hfr⟩ := List.mem_filter.mp hmem
    obtain ⟨newest, hnewest, hkey, hle⟩ := exists_newest hmem
    have hin : newest ∈ rows.filter f :=
      List.mem_filter.mpr ⟨(mem_distinctOn.mp hnewest).1, hf record hmem hfr newest hnewest hkey⟩
    have hsame : newest = record := eq_of_identity hrows (mem_distinctOn.mp hnewest).1 hmem hkey
      (le_antisymm (hmax newest hin hkey) hle)
    exact ⟨hsame ▸ hnewest, hfr⟩
  · intro ⟨h, hfr⟩
    obtain ⟨hmem, hmax⟩ := mem_distinctOn.mp h
    exact mem_distinctOn.mpr ⟨List.mem_filter.mpr ⟨hmem, hfr⟩,
      fun row hrow hkey => hmax row (List.mem_filter.mp hrow).1 hkey⟩

/-- A row newer than all of its aggregate takes their place in the view. -/
theorem mem_distinctOn_append {record : PersistenceRecord π}
    (hnew : ∀ row ∈ rows, row.key = record.key → row.version < record.version)
    {other : PersistenceRecord π} :
    other ∈ distinctOn (rows ++ [record]) ↔
      other = record ∨ (other ∈ distinctOn rows ∧ other.key ≠ record.key) := by
  simp only [mem_distinctOn, List.mem_append, List.mem_singleton]
  constructor
  · rintro ⟨hmem | rfl, hmax⟩
    · refine .inr ⟨⟨hmem, fun row hrow => hmax row (.inl hrow)⟩, fun hkey => ?_⟩
      exact absurd (hnew other hmem hkey) (not_lt.mpr (hmax record (.inr rfl) hkey.symm))
    · exact .inl rfl
  · rintro (rfl | ⟨⟨hmem, hmax⟩, hne⟩)
    · refine ⟨.inr rfl, fun row hrow hkey => ?_⟩
      rcases hrow with hrow | rfl
      · exact (hnew row hrow hkey).le
      · exact le_rfl
    · refine ⟨.inl hmem, fun row hrow hkey => ?_⟩
      rcases hrow with hrow | rfl
      · exact hmax row hrow hkey
      · exact absurd hkey.symm hne

/-- The greatest version of an aggregate is the one of its newest row. -/
theorem foldl_max_version {newest : PersistenceRecord π} (hmem : newest ∈ rows)
    (hmax : ∀ row ∈ rows, row.version ≤ newest.version) :
    (rows.map PersistenceRecord.version).foldl max 0 = newest.version := by
  rw [List.foldl_eq_foldr]
  refine le_antisymm (List.max_le_of_forall_le _ _ fun version hversion => ?_)
    (List.le_max_of_le (List.mem_map_of_mem hmem) le_rfl)
  obtain ⟨row, hrow, rfl⟩ := List.mem_map.mp hversion
  exact hmax row hrow

end Rows

/-! ## Readings -/

section Readings
variable {memory : InMemoryRepository π} {table : PostgresRepository π}

open PostgresRepository

theorem InMemoryRepository.get_eq_some {aggregateType aggregateId : String}
    {record : PersistenceRecord π} :
    memory.get aggregateType aggregateId = some record ↔
      record ∈ memory.records ∧ record.key = (aggregateType, aggregateId) := by
  unfold InMemoryRepository.get
  constructor
  · intro h
    exact ⟨List.mem_of_find?_eq_some h, by simpa using List.find?_some h⟩
  · intro ⟨hmem, hkey⟩
    cases hfind : memory.records.find? fun r => r.key = (aggregateType, aggregateId) with
    | none => exact absurd (decide_eq_true hkey) (List.find?_eq_none.mp hfind record hmem)
    | some other =>
        have hother : other.key = (aggregateType, aggregateId) := by
          simpa using List.find?_some hfind
        exact congrArg some (List.inj_on_of_nodup_map memory.distinct
          (List.mem_of_find?_eq_some hfind) hmem (hother.trans hkey.symm))

theorem mem_ofAggregate {key : String × String} {row : PersistenceRecord π} :
    row ∈ table.ofAggregate key ↔ row ∈ table.rows ∧ row.key = key := by
  rw [ofAggregate, List.mem_filter, decide_eq_true_iff]

theorem PostgresRepository.get_eq_some {aggregateType aggregateId : String}
    {record : PersistenceRecord π} :
    table.get aggregateType aggregateId = some record ↔
      record ∈ distinctOn table.rows ∧ record.key = (aggregateType, aggregateId) := by
  have hview : ∀ r, r ∈ distinctOn (table.ofAggregate (aggregateType, aggregateId)) ↔
      r ∈ distinctOn table.rows ∧ r.key = (aggregateType, aggregateId) := fun r => by
    rw [ofAggregate, mem_distinctOn_filter table.primaryKey, decide_eq_true_iff]
    exact fun row _ hrow newest _ hkey => decide_eq_true (hkey.trans (of_decide_eq_true hrow))
  have hnodup : ((distinctOn (table.ofAggregate (aggregateType, aggregateId))).map
      PersistenceRecord.key).Nodup := distinctOn_nodup
    (table.primaryKey.sublist (List.filter_sublist.map _))
  rw [← hview, PostgresRepository.get]
  constructor
  · exact List.mem_of_mem_head?
  · intro hmem
    cases hlist : distinctOn (table.ofAggregate (aggregateType, aggregateId)) with
    | nil => rw [hlist] at hmem; cases hmem
    | cons first rest =>
        have hfirst : first ∈ distinctOn (table.ofAggregate (aggregateType, aggregateId)) :=
          hlist ▸ List.mem_cons_self
        have hkey : first.key = record.key :=
          ((hview first).mp hfirst).2.trans ((hview record).mp hmem).2.symm
        exact congrArg some (List.inj_on_of_nodup_map hnodup hfirst hmem hkey)

theorem Agrees.get (h : Agrees memory table) (aggregateType aggregateId : String) :
    memory.get aggregateType aggregateId = table.get aggregateType aggregateId := by
  refine Option.ext fun record => ?_
  rw [InMemoryRepository.get_eq_some, PostgresRepository.get_eq_some, h.latest]

/-- What the dictionary has in a scope is what the table shows in it. -/
theorem Agrees.filter (h : Agrees memory table) {f : PersistenceRecord π → Bool}
    (hf : ∀ row ∈ table.rows, f row → ∀ newest ∈ distinctOn table.rows,
      newest.key = row.key → f newest) :
    (memory.records.filter f).Perm (distinctOn (table.rows.filter f)) := by
  refine (List.perm_ext_iff_of_nodup ?_ ?_).mpr fun record => ?_
  · exact (List.Nodup.of_map _ memory.distinct).filter _
  · exact List.Nodup.of_map _
      (distinctOn_nodup (table.primaryKey.sublist (List.filter_sublist.map _)))
  · rw [mem_distinctOn_filter table.primaryKey hf, List.mem_filter, h.latest]

/-- The order of a listing, among different aggregates, is the order of their keys. -/
theorem key_lt_of_listKey_le {a b : PersistenceRecord π}
    (h : InMemoryRepository.listKey a ≤ InMemoryRepository.listKey b) (hne : a.key ≠ b.key) :
    toLex a.key < toLex b.key := by
  simp only [InMemoryRepository.listKey, Prod.Lex.toLex_le_toLex] at h
  rw [PersistenceRecord.key, PersistenceRecord.key, Prod.Lex.toLex_lt_toLex]
  rcases h with htype | ⟨htype, hid | ⟨hid, -⟩⟩
  · exact .inl htype
  · exact .inr ⟨htype, hid⟩
  · exact absurd (Prod.ext htype hid) hne

/-- The two listings of records of different aggregates are in one order. -/
theorem insertionSort_eq_distinctOn {records rows : List (PersistenceRecord π)}
    (hperm : records.Perm (distinctOn rows))
    (hkeys : (records.map PersistenceRecord.key).Nodup) :
    records.insertionSort (fun a b => InMemoryRepository.listKey a ≤ InMemoryRepository.listKey b) =
      distinctOn rows := by
  have hne : ∀ {sorted : List (PersistenceRecord π)}, sorted.Perm records →
      sorted.Pairwise fun a b => a.key ≠ b.key := fun hsorted => by
    rw [← List.pairwise_map (R := fun a b : String × String => a ≠ b)]
    exact ((hsorted.map _).nodup_iff).mpr hkeys
  have hmemory : (records.insertionSort fun a b =>
      InMemoryRepository.listKey a ≤ InMemoryRepository.listKey b).Pairwise
        fun a b => toLex a.key < toLex b.key := by
    have : Std.Total fun a b : PersistenceRecord π =>
      InMemoryRepository.listKey a ≤ InMemoryRepository.listKey b := ⟨fun _ _ => le_total _ _⟩
    have : IsTrans (PersistenceRecord π) fun a b =>
      InMemoryRepository.listKey a ≤ InMemoryRepository.listKey b :=
      ⟨fun _ _ _ hab hbc => hab.trans hbc⟩
    exact ((List.pairwise_insertionSort _ records).and
      (hne (List.perm_insertionSort _ records))).imp fun ⟨hle, hne⟩ => key_lt_of_listKey_le hle hne
  have htable : (distinctOn rows).Pairwise fun a b => toLex a.key < toLex b.key := by
    have : Std.Total fun a b : PersistenceRecord π => toLex a.key ≤ toLex b.key :=
      ⟨fun _ _ => le_total _ _⟩
    have : IsTrans (PersistenceRecord π) fun a b => toLex a.key ≤ toLex b.key :=
      ⟨fun _ _ _ hab hbc => hab.trans hbc⟩
    have hle : (distinctOn rows).Pairwise fun a b => toLex a.key ≤ toLex b.key :=
      List.pairwise_insertionSort _ _
    exact (hle.and (hne hperm.symm)).imp fun ⟨hle, hne⟩ =>
      lt_of_le_of_ne hle fun heq => hne (toLex.injective heq)
  exact List.Perm.eq_of_pairwise (fun a b _ _ hab hba => absurd hab (lt_asymm hba)) hmemory
    htable ((List.perm_insertionSort _ records).trans hperm)

theorem Agrees.list (h : Agrees memory table) (aggregateType : Option String)
    (limit : Option Int) : memory.list aggregateType limit = table.list aggregateType limit := by
  have hperm := h.filter (f := fun record => aggregateType.all (record.aggregateType = ·))
    fun row _ hrow newest _ hkey => by
      rwa [show newest.aggregateType = row.aggregateType from (Prod.mk.inj hkey).1]
  have hsame := insertionSort_eq_distinctOn hperm
    (memory.distinct.sublist (List.filter_sublist.map _))
  cases limit with
  | none => simp only [InMemoryRepository.list, PostgresRepository.list, hsame]
  | some limit => simp only [InMemoryRepository.list, PostgresRepository.list, hsame]

/-- Pages of the same records are the same. -/
theorem page_perm {records rows : List (PersistenceRecord π)} (hperm : records.Perm rows)
    (hkeys : (rows.map PersistenceRecord.sortKey).Nodup) (limit : Nat)
    (cursor : Option (Datetime ×ₗ String)) :
    Keyset.page PersistenceRecord.sortKey limit cursor records =
      Keyset.page PersistenceRecord.sortKey limit cursor rows := by
  have hall : records.Perm (Keyset.below PersistenceRecord.sortKey none rows) := hperm
  have hsorted : Keyset.newestFirst PersistenceRecord.sortKey records =
      Keyset.newestFirst PersistenceRecord.sortKey rows :=
    Keyset.newestFirst_below hall hkeys
  unfold Keyset.page
  rw [hsorted]

theorem Agrees.query (h : Agrees memory table) (plan : SortPlan π) (q : Query)
    (halike : table.Alike (.query q)) :
    memory.query q = table.query plan q := by
  cases hcheck : q.check with
  | error e =>
      unfold InMemoryRepository.query PostgresRepository.query
      rw [hcheck]
      rfl
  | ok _ =>
      cases hcursor : q.cursorKey with
      | error e =>
          unfold InMemoryRepository.query PostgresRepository.query
          rw [hcheck, hcursor]
          rfl
      | ok cursor =>
          obtain ⟨hstays, huntied⟩ := halike ⟨by rw [hcheck]; rfl, by rw [hcursor]; rfl⟩
          rw [memory.query_eq_page hcheck hcursor,
            table.query_eq_page plan hcheck hcursor huntied,
            page_perm (h.filter hstays) huntied]

end Readings

/-! ## Writes -/

section Writes
variable {memory : InMemoryRepository π} {table : PostgresRepository π}
  {record : PersistenceRecord π}

open PostgresRepository

theorem insert_fresh (hidentity : record.identity ∉ table.rows.map PersistenceRecord.identity)
    (hid : record.recordId ∉ table.rows.map PersistenceRecord.recordId) :
    ∃ after, table.insert record = .ok after ∧ after.rows = table.rows ++ [record] := by
  unfold PostgresRepository.insert
  rw [dif_neg hidentity, dif_neg hid]
  exact ⟨_, rfl, rfl⟩

theorem insert_used (h : record.identity ∈ table.rows.map PersistenceRecord.identity ∨
    record.recordId ∈ table.rows.map PersistenceRecord.recordId) :
    ∃ violation, table.insert record = .error violation := by
  unfold PostgresRepository.insert
  by_cases hidentity : record.identity ∈ table.rows.map PersistenceRecord.identity
  · exact ⟨_, dif_pos hidentity⟩
  · rw [dif_neg hidentity, dif_pos (h.resolve_left hidentity)]
    exact ⟨_, rfl⟩

theorem create_used (h : record.identity ∈ table.rows.map PersistenceRecord.identity ∨
    record.recordId ∈ table.rows.map PersistenceRecord.recordId) :
    ∃ message, table.create record = .error (.persistenceConflictError message) := by
  obtain ⟨violation, hinsert⟩ := insert_used h
  unfold PostgresRepository.create
  rw [hinsert]
  cases violation with
  | primaryKey => exact ⟨_, rfl⟩
  | recordIdUnique => exact ⟨_, rfl⟩

/-- A record id is claimed for a new row unless another row has it. -/
theorem Agrees.claimRecordId (h : Agrees memory table)
    (hidentity : record.identity ∉ table.rows.map PersistenceRecord.identity) :
    (record.recordId ∉ table.rows.map PersistenceRecord.recordId ∧
      memory.claimRecordId record = .ok ((record.recordId, record.identity) :: memory.recordIds)) ∨
    (record.recordId ∈ table.rows.map PersistenceRecord.recordId ∧
      ∃ message, memory.claimRecordId record = .error (.persistenceConflictError message)) := by
  unfold InMemoryRepository.claimRecordId
  cases howner : memory.recordIds.lookup record.recordId with
  | none =>
      refine .inl ⟨fun hused => ?_, rfl⟩
      obtain ⟨row, hrow, hid⟩ := List.mem_map.mp hused
      have := (h.claimed record.recordId row.identity).mpr ⟨row, hrow, hid, rfl⟩
      rw [howner] at this
      cases this
  | some owner =>
      obtain ⟨row, hrow, hid, rfl⟩ := (h.claimed _ _).mp howner
      have hne : row.identity ≠ record.identity :=
        fun heq => hidentity (heq ▸ List.mem_map_of_mem hrow)
      exact .inr ⟨hid ▸ List.mem_map_of_mem hrow, _, if_pos hne⟩

/-- Two writes of a newer row keep the relation. -/
theorem Agrees.write (h : Agrees memory table) {memory' : InMemoryRepository π}
    {table' : PostgresRepository π}
    (hnewer : ∀ row ∈ table.rows, row.key = record.key →
      row.version < record.version ∧ row.tenantId = record.tenantId)
    (hid : record.recordId ∉ table.rows.map PersistenceRecord.recordId)
    (hlatest : ∀ other, other ∈ memory'.records ↔
      other = record ∨ (other ∈ memory.records ∧ other.key ≠ record.key))
    (hclaimed : memory'.recordIds = (record.recordId, record.identity) :: memory.recordIds)
    (hrows : table'.rows = table.rows ++ [record]) : Agrees memory' table' where
  latest other := by
    rw [hlatest, hrows, mem_distinctOn_append fun row hrow hkey => (hnewer row hrow hkey).1,
      h.latest]
  claimed recordId owner := by
    rw [hclaimed, hrows, List.lookup_cons]
    simp only [List.mem_append, List.mem_singleton]
    by_cases heq : recordId = record.recordId
    · subst heq
      rw [beq_self_eq_true]
      constructor
      · intro howner
        exact ⟨record, .inr rfl, rfl, Option.some.inj howner⟩
      · rintro ⟨row, hrow | rfl, hrowId, rfl⟩
        · exact absurd (hrowId ▸ List.mem_map_of_mem hrow) hid
        · rfl
    · rw [beq_false_of_ne heq]
      dsimp only
      rw [h.claimed]
      constructor
      · rintro ⟨row, hrow, hrow'⟩
        exact ⟨row, .inl hrow, hrow'⟩
      · rintro ⟨row, hrow | rfl, hrowId, howner⟩
        · exact ⟨row, hrow, hrowId, howner⟩
        · exact absurd hrowId.symm heq
  oneTenant a ha b hb hkey := by
    rw [hrows, List.mem_append, List.mem_singleton] at ha hb
    rcases ha with ha | rfl <;> rcases hb with hb | rfl
    · exact h.oneTenant a ha b hb hkey
    · exact (hnewer a ha hkey).2
    · exact (hnewer b hb hkey.symm).2.symm
    · rfl

/-- Both writes go through and keep the relation, or both raise errors of one class. -/
def WritesAgree (memory : Except PersistenceError (InMemoryRepository π))
    (table : Except PersistenceError (PostgresRepository π)) : Prop :=
  (∃ memory' table', memory = .ok memory' ∧ table = .ok table' ∧ Agrees memory' table') ∨
    ∃ e e', memory = .error e ∧ table = .error e' ∧ e.errorClass = e'.errorClass

theorem Agrees.has_iff (h : Agrees memory table) (key : String × String) :
    table.Has key ↔ key ∈ memory.records.map PersistenceRecord.key := by
  rw [List.mem_map]
  constructor
  · rintro ⟨row, hrow, rfl⟩
    obtain ⟨newest, hnewest, hkey, -⟩ := exists_newest hrow
    exact ⟨newest, (h.latest newest).mpr hnewest, hkey⟩
  · rintro ⟨record, hmem, rfl⟩
    exact ⟨record, (mem_distinctOn.mp ((h.latest record).mp hmem)).1, rfl⟩

theorem Agrees.create (h : Agrees memory table) (halike : table.Alike (.create record)) :
    WritesAgree (memory.create record) (table.create record) := by
  by_cases hkey : record.key ∈ memory.records.map PersistenceRecord.key
  · obtain ⟨message, htable⟩ := create_used (halike ((h.has_iff _).mpr hkey))
    rw [htable, InMemoryRepository.create, dif_pos hkey]
    exact .inr ⟨_, _, rfl, rfl, rfl⟩
  · have hnone : ∀ row ∈ table.rows, row.key ≠ record.key := fun row hrow hsame =>
      hkey ((h.has_iff _).mp ⟨row, hrow, hsame⟩)
    have hidentity : record.identity ∉ table.rows.map PersistenceRecord.identity := by
      intro hmem
      obtain ⟨row, hrow, hsame⟩ := List.mem_map.mp hmem
      simp only [PersistenceRecord.identity, Prod.mk.injEq] at hsame
      exact hnone row hrow (Prod.ext hsame.1 hsame.2.1)
    rcases h.claimRecordId hidentity with ⟨hid, hclaim⟩ | ⟨hid, message, hclaim⟩
    · obtain ⟨after, hinsert, hrows⟩ := insert_fresh hidentity hid
      rw [InMemoryRepository.create, dif_neg hkey, hclaim, PostgresRepository.create, hinsert]
      refine .inl ⟨_, after, rfl, rfl, h.write
        (fun row hrow hsame => absurd hsame (hnone row hrow)) hid (fun other => ?_) rfl hrows⟩
      rw [List.mem_append, List.mem_singleton]
      constructor
      · rintro (hother | rfl)
        · exact .inr ⟨hother, fun hsame => hkey (hsame ▸ List.mem_map_of_mem hother)⟩
        · exact .inl rfl
      · rintro (rfl | ⟨hother, -⟩)
        · exact .inr rfl
        · exact .inl hother
    · obtain ⟨message', htable⟩ := create_used (.inr hid)
      rw [htable, InMemoryRepository.create, dif_neg hkey, hclaim]
      exact .inr ⟨_, _, rfl, rfl, rfl⟩

/-- `replace` of an aggregate that is not there. -/
theorem Agrees.replace_absent (h : Agrees memory table) {expectedVersion : Int}
    (hhas : ¬ table.Has record.key) (hversion : record.version = expectedVersion + 1) :
    WritesAgree (memory.replace record expectedVersion) (table.replace record expectedVersion) := by
  have hrows : table.ofAggregate record.key = [] := List.eq_nil_iff_forall_not_mem.mpr
    fun row hrow => hhas ⟨row, mem_ofAggregate.mp hrow⟩
  have hget : table.get record.aggregateType record.aggregateId = none :=
    Option.eq_none_iff_forall_ne_some.mpr fun row hrow => by
      obtain ⟨hmem, hkey⟩ := PostgresRepository.get_eq_some.mp hrow
      exact hhas ⟨row, (mem_distinctOn.mp hmem).1, hkey⟩
  have hmemory := (h.get record.aggregateType record.aggregateId).trans hget
  rw [PostgresRepository.replace, if_neg (not_not.mpr hversion), hget,
    InMemoryRepository.replace, hmemory]
  refine .inr ⟨_, .persistenceNotFoundError _, rfl, ?_, rfl⟩
  have hreplaces : ¬ table.replaces record expectedVersion := by
    simp [PostgresRepository.replaces, hrows]
  have howner : ¬ (none : Option (PersistenceRecord π)).any
      (fun current => current.tenantId ≠ record.tenantId) := by simp
  rw [if_neg howner, if_neg hreplaces, if_pos hrows]

/-- The insert of a replacement goes through exactly for the version after the newest. -/
theorem replaces_iff {current : PersistenceRecord π} {expectedVersion : Int}
    (hcurrent : current ∈ distinctOn table.rows) (hkey : current.key = record.key)
    (hversion : record.version = expectedVersion + 1) :
    table.replaces record expectedVersion ↔ (current.version : Int) = expectedVersion := by
  obtain ⟨hmem, hmax⟩ := mem_distinctOn.mp hcurrent
  have hin : current ∈ table.ofAggregate record.key := mem_ofAggregate.mpr ⟨hmem, hkey⟩
  have hgreatest := foldl_max_version hin fun row hrow =>
    hmax row (mem_ofAggregate.mp hrow).1 ((mem_ofAggregate.mp hrow).2.trans hkey.symm)
  unfold PostgresRepository.replaces
  simp only [hgreatest, Bool.and_eq_true, List.any_eq_true, decide_eq_true_eq]
  constructor
  · intro ⟨_, hnext⟩
    omega
  · intro hsame
    exact ⟨⟨current, hin, hsame⟩, by omega⟩

/-- What a replacement of the newest version has to be. -/
def Follows (record current : PersistenceRecord π) (expectedVersion : Int) : Prop :=
  current.tenantId = record.tenantId ∧ (current.version : Int) = expectedVersion ∧
    record.version = expectedVersion + 1

theorem memory_replace_conflict {current : PersistenceRecord π} {expectedVersion : Int}
    (hget : memory.get record.aggregateType record.aggregateId = some current)
    (hnot : ¬ Follows record current expectedVersion) :
    ∃ message, memory.replace record expectedVersion =
      .error (.persistenceConflictError message) := by
  rw [InMemoryRepository.replace, hget]
  dsimp only
  by_cases htenant : current.tenantId = record.tenantId
  · rw [if_neg (not_not.mpr htenant)]
    by_cases hexpected : (current.version : Int) = expectedVersion
    · rw [if_neg (not_not.mpr hexpected),
        if_pos fun hversion => hnot ⟨htenant, hexpected, hversion⟩]
      exact ⟨_, rfl⟩
    · rw [if_pos hexpected]
      exact ⟨_, rfl⟩
  · rw [if_pos htenant]
    exact ⟨_, rfl⟩

theorem table_replace_conflict {current : PersistenceRecord π} {expectedVersion : Int}
    (hget : table.get record.aggregateType record.aggregateId = some current)
    (hnot : ¬ Follows record current expectedVersion) :
    ∃ message, table.replace record expectedVersion =
      .error (.persistenceConflictError message) := by
  obtain ⟨hcurrent, hkey⟩ := PostgresRepository.get_eq_some.mp hget
  have hrows : table.ofAggregate record.key ≠ [] :=
    List.ne_nil_of_mem (mem_ofAggregate.mpr ⟨(mem_distinctOn.mp hcurrent).1, hkey⟩)
  rw [PostgresRepository.replace, hget]
  by_cases hversion : record.version = expectedVersion + 1
  · rw [if_neg (not_not.mpr hversion)]
    by_cases htenant : current.tenantId = record.tenantId
    · have hreplaces : ¬ table.replaces record expectedVersion := fun h =>
        hnot ⟨htenant, (replaces_iff hcurrent hkey hversion).mp h, hversion⟩
      rw [if_neg (by simpa using htenant), if_neg hreplaces, if_neg hrows]
      exact ⟨_, rfl⟩
    · rw [if_pos (by simpa using htenant)]
      exact ⟨_, rfl⟩
  · rw [if_pos hversion]
    exact ⟨_, rfl⟩

/-- A row of the version after the newest is not there yet. -/
theorem identity_fresh {current : PersistenceRecord π} {expectedVersion : Int}
    (hcurrent : current ∈ distinctOn table.rows) (hkey : current.key = record.key)
    (hfollows : Follows record current expectedVersion) :
    record.identity ∉ table.rows.map PersistenceRecord.identity := by
  intro hmem
  obtain ⟨row, hrow, hsame⟩ := List.mem_map.mp hmem
  simp only [PersistenceRecord.identity, Prod.mk.injEq] at hsame
  have hle := (mem_distinctOn.mp hcurrent).2 row hrow
    ((Prod.ext hsame.1 hsame.2.1).trans hkey.symm)
  have := hfollows.2
  omega

/-- `replace` of an aggregate that is there. -/
theorem Agrees.replace_present (h : Agrees memory table) {expectedVersion : Int}
    {current : PersistenceRecord π} (hcurrent : current ∈ distinctOn table.rows)
    (hkey : current.key = record.key) :
    WritesAgree (memory.replace record expectedVersion) (table.replace record expectedVersion) := by
  have hget := PostgresRepository.get_eq_some.mpr ⟨hcurrent, hkey⟩
  have hmemory := (h.get record.aggregateType record.aggregateId).trans hget
  by_cases hfollows : Follows record current expectedVersion
  case neg =>
    obtain ⟨message, hm⟩ := memory_replace_conflict hmemory hfollows
    obtain ⟨message', ht⟩ := table_replace_conflict hget hfollows
    exact .inr ⟨_, _, hm, ht, rfl⟩
  have hidentity := identity_fresh hcurrent hkey hfollows
  obtain ⟨htenant, hexpected, hversion⟩ := hfollows
  have hreplaces := (replaces_iff hcurrent hkey hversion).mpr hexpected
  have howner : ¬ (some current).any (fun current => current.tenantId ≠ record.tenantId) := by
    simpa using htenant
  rw [PostgresRepository.replace, hget, if_neg (not_not.mpr hversion), if_neg howner,
    if_pos hreplaces, InMemoryRepository.replace, hmemory]
  dsimp only
  rw [if_neg (not_not.mpr htenant), if_neg (not_not.mpr hexpected), if_neg (not_not.mpr hversion)]
  rcases h.claimRecordId hidentity with ⟨hid, hclaim⟩ | ⟨hid, message, hclaim⟩
  · obtain ⟨after, hinsert, hrows⟩ := insert_fresh hidentity hid
    rw [hclaim, hinsert]
    refine .inl ⟨_, after, rfl, rfl, h.write (fun row hrow hsame => ?_) hid
      (fun other => ?_) rfl hrows⟩
    · have hle := (mem_distinctOn.mp hcurrent).2 row hrow (hsame.trans hkey.symm)
      exact ⟨by omega, (h.oneTenant row hrow current (mem_distinctOn.mp hcurrent).1
        (hsame.trans hkey.symm)).trans htenant⟩
    · rw [InMemoryRepository.mem_overwrite ⟨current, (h.latest current).mpr hcurrent, hkey⟩]
  · obtain ⟨violation, hinsert⟩ := insert_used (.inr hid)
    rw [hclaim, hinsert]
    cases violation with
    | primaryKey => exact .inr ⟨_, _, rfl, rfl, rfl⟩
    | recordIdUnique => exact .inr ⟨_, _, rfl, rfl, rfl⟩

theorem Agrees.replace (h : Agrees memory table) {expectedVersion : Int}
    (halike : table.Alike (.replace record expectedVersion)) :
    WritesAgree (memory.replace record expectedVersion) (table.replace record expectedVersion) := by
  by_cases hhas : table.Has record.key
  · obtain ⟨row, hrow, hkey⟩ := hhas
    obtain ⟨newest, hnewest, hsame, -⟩ := exists_newest hrow
    exact h.replace_present hnewest (hsame.trans hkey)
  · exact h.replace_absent hhas (halike.resolve_left hhas)

end Writes

/-! ## Runs -/

/-- A call that is answered alike keeps the relation. -/
theorem agrees_step {memory : InMemoryRepository π} {table : PostgresRepository π}
    (h : Agrees memory table) (plan : SortPlan π) {c : Call π} (halike : table.Alike c) :
    (memory.call c).2 = (table.call plan c).2 ∧
      Agrees (memory.call c).1 (table.call plan c).1 := by
  have hwrite : ∀ {record : PersistenceRecord π} {m t}, WritesAgree m t →
      (afterWrite memory record m).2 = (afterWrite table record t).2 ∧
        Agrees (afterWrite memory record m).1 (afterWrite table record t).1 := by
    intro record m t hboth
    rcases hboth with ⟨memory', table', rfl, rfl, hafter⟩ | ⟨e, e', rfl, rfl, hclass⟩
    · exact ⟨rfl, hafter⟩
    · exact ⟨congrArg Except.error hclass, h⟩
  cases c with
  | create record => exact hwrite (h.create halike)
  | replace record expectedVersion => exact hwrite (h.replace halike)
  | get aggregateType aggregateId =>
      exact ⟨congrArg (fun r => (.ok (.found r) : Observed π)) (h.get aggregateType aggregateId), h⟩
  | list aggregateType limit =>
      exact ⟨congrArg (observed .listed) (h.list aggregateType limit), h⟩
  | query q => exact ⟨congrArg (observed .page) (h.query plan q halike), h⟩

theorem run_agrees {memory : InMemoryRepository π} {table : PostgresRepository π}
    (h : Agrees memory table) {calls : List (SortPlan π × Call π)}
    (halike : table.AllAlike calls) : memory.run (calls.map Prod.snd) = table.run calls := by
  induction calls generalizing memory table with
  | nil => rfl
  | cons first calls ih =>
      obtain ⟨plan, c⟩ := first
      obtain ⟨hanswer, hafter⟩ := agrees_step h plan halike.1
      rw [List.map_cons, InMemoryRepository.run, PostgresRepository.run, hanswer,
        ih hafter halike.2]

/-- Rows reach a sort as they are. -/
def asStored : SortPlan Unit := ⟨id, fun _ => List.Perm.refl _⟩

/-- A version of a payment. -/
def paymentVersion (recordId : String) (version : Nat) (h : recordId ≠ "" ∧ 1 ≤ version) :
    PersistenceRecord Unit :=
  { recordId, aggregateType := "payment", aggregateId := "pay-1", version
    payload := (), createdAt := newYear, tenantId := some "t-1"
    valid := ⟨⟨h.1, by decide, by decide⟩, by decide, h.2⟩ }

/-- A payment is created, then its second version is, as if it were new. -/
def laterVersionCreated : List (SortPlan Unit × Call Unit) :=
  [(asStored, .create (paymentVersion "r-1" 1 (by decide))),
    (asStored, .create (paymentVersion "r-2" 2 (by decide)))]

/-- A payment is created, replaced and shown. -/
def replacedPayment : List (SortPlan Unit × Call Unit) :=
  [(asStored, .create (paymentVersion "r-1" 1 (by decide))),
    (asStored, .replace (paymentVersion "r-2" 2 (by decide)) 1),
    (asStored, .create (paymentVersion "r-1" 1 (by decide))),
    (asStored, .query onePayment)]

end SeoAgent.Persistence
