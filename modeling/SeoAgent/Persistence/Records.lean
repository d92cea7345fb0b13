import Mathlib.Data.Prod.Lex
import Mathlib.Data.String.Basic
import SeoAgent.Verified.Base64
import SeoAgent.Verified.IsoTime
import SeoAgent.Verified.JsonText
import SeoAgent.Verified.Text

/-!
# Records and cursors

The versioned envelope every aggregate is stored in (`app/models/persistence.py`), what
a repository raises (`app/persistence/contracts.py`), and the cursor of a page
(`app/persistence/cursor.py`): the key of the last record of a page, as base 64 of a
JSON array of its time and its id.

A payload is opaque, and times are in UTC, as the clock of every record has them.

## Main results

* `decodeCursor_encodeCursor` — a cursor carries its key.
-/

namespace SeoAgent.Persistence

open SeoAgent.Verified

/-! ## Records -/

/-- The persistence envelope of one version of an aggregate. -/
structure PersistenceRecord (π : Type) where
  recordId : String
  aggregateType : String
  aggregateId : String
  schemaVersion : Nat := 1
  version : Nat := 1
  payload : π
  createdAt : Datetime
  snapshotId : Option String := none
  dataSnapshotId : Option String := none
  ruleVersion : Option String := none
  configVersion : Option String := none
  tenantId : Option String := none
  siteId : Option String := none
  valid : (recordId ≠ "" ∧ aggregateType ≠ "" ∧ aggregateId ≠ "") ∧
    1 ≤ schemaVersion ∧ 1 ≤ version
  deriving DecidableEq

namespace PersistenceRecord

variable {π : Type}

/-- What a record is a version of. -/
def key (record : PersistenceRecord π) : String × String :=
  (record.aggregateType, record.aggregateId)

/-- What no two rows share. -/
def identity (record : PersistenceRecord π) : String × String × Nat :=
  (record.aggregateType, record.aggregateId, record.version)

/-- What listings are ordered by: the time, and then the id. -/
def sortKey (record : PersistenceRecord π) : Datetime ×ₗ String :=
  toLex (record.createdAt, record.aggregateId)

end PersistenceRecord

/-- What a repository raises. -/
inductive PersistenceError
  | persistenceConflictError (message : String)
  | persistenceNotFoundError (message : String)
  | invalidCursorError (message : String)
  | valueError (message : String)
  deriving DecidableEq, Repr

/-- The class of an error. -/
inductive ErrorClass
  | persistenceConflictError
  | persistenceNotFoundError
  | invalidCursorError
  | valueError
  deriving DecidableEq, Repr

def PersistenceError.errorClass : PersistenceError → ErrorClass
  | persistenceConflictError _ => .persistenceConflictError
  | persistenceNotFoundError _ => .persistenceNotFoundError
  | invalidCursorError _ => .invalidCursorError
  | valueError _ => .valueError

/-- One page of records, newest first. -/
structure RecordPage (π : Type) where
  records : List (PersistenceRecord π)
  nextCursor : Option String
  deriving DecidableEq

/-- The arguments of a query. -/
structure Query where
  tenantId : String
  aggregateType : Option String := none
  siteId : Option String := none
  limit : Int := 50
  cursor : Option String := none

/-! ## Cursors -/

/-- The bytes of a text in UTF-8. -/
def utf8 (cs : List Char) : List UInt8 := (String.ofList cs).toByteArray.data.toList

/-- The text of some bytes in UTF-8. -/
def ofUtf8? (bytes : List UInt8) : Option (List Char) :=
  (String.fromUTF8? ⟨bytes.toArray⟩).map String.toList

theorem ofUtf8?_utf8 (cs : List Char) : ofUtf8? (utf8 cs) = some cs := by
  have hbytes : (⟨(utf8 cs).toArray⟩ : ByteArray) = (String.ofList cs).toByteArray := by
    simp [utf8]
  unfold ofUtf8? String.fromUTF8?
  rw [hbytes, dif_pos (String.ofList cs).isValidUTF8]
  exact congrArg some String.toList_ofList

def encodeCursor (key : Datetime ×ₗ String) : String :=
  String.ofList (Base64.encode (utf8 (JsonText.dumpsPair
    (IsoTime.isoformat (ofLex key).1) (ofLex key).2.toList)))

/-- The message of every cursor that cannot be read. -/
def invalidCursor : PersistenceError :=
  .invalidCursorError "Pagination cursor is not valid."

/-- The key of a cursor, when its text can be read. -/
def readCursor (cursor : String) : Option (Datetime × String) :=
  if cursor.toList.all fun c => c.toNat < 128 then do
    let bytes ← Base64.decode cursor.toList
    let text ← ofUtf8? bytes
    let (createdAtText, aggregateId) ← JsonText.loadsPair text
    let createdAt ← IsoTime.fromIsoformat createdAtText
    pure (createdAt, String.ofList aggregateId)
  else none

def decodeCursor (cursor : String) : Except PersistenceError (Datetime ×ₗ String) :=
  match readCursor cursor with
  | none => .error invalidCursor
  | some (createdAt, aggregateId) =>
      if aggregateId = "" then .error invalidCursor else .ok (toLex (createdAt, aggregateId))

set_option maxRecDepth 4000 in
theorem sextetChar_ascii : ∀ n < 64, (Base64.sextetChar n).toNat < 128 := by decide

/-- What is encoded is ASCII. -/
theorem encode_ascii (bytes : List UInt8) :
    (Base64.encode bytes).all fun c => c.toNat < 128 := by
  have hpad : ('='.toNat < 128) = True := by decide
  induction bytes using Base64.encode.induct with
  | case1 => rfl
  | case2 a =>
      have ha := a.toNat_lt
      simp only [Base64.encode, List.all_cons, List.all_nil, Bool.and_eq_true,
        decide_eq_true_eq, hpad, and_true]
      exact ⟨sextetChar_ascii _ (by omega), sextetChar_ascii _ (by omega)⟩
  | case3 a b =>
      have ha := a.toNat_lt
      have hb := b.toNat_lt
      simp only [Base64.encode, List.all_cons, List.all_nil, Bool.and_eq_true,
        decide_eq_true_eq, hpad, and_true]
      exact ⟨sextetChar_ascii _ (by omega), sextetChar_ascii _ (by omega),
        sextetChar_ascii _ (by omega)⟩
  | case4 a b c rest ih =>
      have ha := a.toNat_lt
      have hb := b.toNat_lt
      have hc := c.toNat_lt
      simp only [Base64.encode, List.all_cons, Bool.and_eq_true, decide_eq_true_eq]
      exact ⟨sextetChar_ascii _ (by omega), sextetChar_ascii _ (by omega),
        sextetChar_ascii _ (by omega), sextetChar_ascii _ (by omega), ih⟩

/-- A cursor carries its key. -/
theorem decodeCursor_encodeCursor (key : Datetime ×ₗ String) (hid : (ofLex key).2 ≠ "") :
    decodeCursor (encodeCursor key) = .ok key := by
  have hread : readCursor (encodeCursor key) = some ((ofLex key).1, (ofLex key).2) := by
    unfold readCursor encodeCursor
    rw [String.toList_ofList, if_pos (encode_ascii _), Base64.decode_encode]
    simp only [Option.bind_eq_bind, Option.bind_some, ofUtf8?_utf8,
      JsonText.loadsPair_dumpsPair, IsoTime.fromIsoformat_isoformat, Option.pure_def,
      String.ofList_toList]
  unfold decodeCursor
  rw [hread]
  exact if_neg hid

/-- The cursor a record ends a page with carries the record's key. -/
theorem decodeCursor_sortKey {π : Type} (record : PersistenceRecord π) :
    decodeCursor (encodeCursor record.sortKey) = .ok record.sortKey :=
  decodeCursor_encodeCursor _ record.valid.1.2.2

/-! ## Queries -/

namespace Query

/-- The records a query is about. -/
def inScope {π : Type} (query : Query) (record : PersistenceRecord π) : Bool :=
  record.tenantId = some query.tenantId &&
    query.aggregateType.all (record.aggregateType = ·) &&
    query.siteId.all (record.siteId = some ·)

/-- The checks of a query's arguments. -/
def check (query : Query) : Except PersistenceError Unit :=
  if Text.strip query.tenantId = "" then
    .error (.valueError "tenant_id is required for a scoped query")
  else if query.limit < 1 ∨ 500 < query.limit then
    .error (.valueError "limit must be between 1 and 500")
  else .ok ()

/-- `decode_cursor` of the cursor, when there is one. -/
def cursorKey (query : Query) : Except PersistenceError (Option (Datetime ×ₗ String)) :=
  match query.cursor with
  | none => .ok none
  | some cursor => (decodeCursor cursor).map some

end Query

end SeoAgent.Persistence
