import Mathlib.Data.List.Sort
import SeoAgent.Verified.Text

/-!
# The migration runner

`discover_migrations` and `apply_migrations` of `app/persistence/migrator.py`.
A start loads every `NNN_name.sql` file of its directory, ordered by number,
takes a session advisory lock, reads the table of applied versions, and then
goes through the files one by one: a version that is recorded with the same
checksum is skipped, one that is recorded with another checksum is refused, and
any other is executed and recorded in one transaction.

Starts interleave. `step` carries one start on by one request to the database,
or lets it fail where it is: an exception and a lost connection both drop the
transaction that is open and give the lock back, as Postgres does at the end of
a session. A connection that breaks while a commit is being answered is a commit
and then a failure. The SQL of a file has no transaction statements of its own,
like every file of `migrations/`, so that what a transaction executed and what
it inserted become visible together.

`Digits` is what `\d` and `int` know of a character, and `checksum` the SHA-256
of a text; both stand for the standard library.
-/

namespace SeoAgent.Persistence.Migrator

open SeoAgent.Verified

/-! ## Files -/

/-- The value of a character that is a decimal digit. -/
abbrev Digits : Type := Char → Option Nat

variable (digits : Digits) (checksum : String → String)

/-- `int` of a text of digits. -/
def numberOf (version : String) : Nat :=
  version.toList.foldl (fun n c => 10 * n + (digits c).getD 0) 0

structure Migration where
  version : String
  name : String
  file : String
  sql : String
deriving DecidableEq

def Migration.checksumOf (m : Migration) : String := checksum m.sql

def Migration.sortKey (m : Migration) : Nat := numberOf digits m.version

/-- `FILENAME_PATTERN`: the digits of a file name, and what stands between the
underscore after them and `.sql`. -/
def matchName (file : String) : Option (String × String) :=
  let cs := file.toList
  let version := cs.takeWhile fun c => (digits c).isSome
  let rest := cs.dropWhile fun c => (digits c).isSome
  let name := (rest.drop 1).take (rest.length - 5)
  if version ≠ [] ∧ rest.head? = some '_' ∧ name ≠ [] ∧ '\n' ∉ name ∧
      (rest.drop 1).drop (rest.length - 5) = ".sql".toList then
    some (String.ofList version, String.ofList name)
  else none

/-- A file of the directory: its name and what it reads as, when it is UTF-8. -/
structure File where
  name : String
  text : Option String

/-- A directory: what `sorted(root.glob("*.sql"))` gives, when there is one. -/
structure Directory where
  path : String
  files : Option (List File)

/-- Why a start stops before it has asked the database anything. -/
inductive DiscoveryError
  | migration (text : String)
  | unreadable
deriving DecidableEq

/-- The files in the order of the listing, with the numbers seen so far. -/
def load : List (Nat × String) → List File → Except DiscoveryError (List Migration)
  | _, [] => .ok []
  | seen, f :: fs =>
      match matchName digits f.name with
      | none => .error (.migration ("Migration file name must be NNN_name.sql: " ++ f.name))
      | some (version, name) =>
          match seen.lookup (numberOf digits version) with
          | some other => .error (.migration ("Duplicate migration number " ++
              toString (numberOf digits version) ++ ": " ++ other ++ " and " ++ f.name))
          | none =>
              match f.text with
              | none => .error .unreadable
              | some sql =>
                  if Text.strip sql = "" then
                    .error (.migration ("Migration file is empty: " ++ f.name))
                  else
                    (load ((numberOf digits version, f.name) :: seen) fs).map
                      (⟨version, name, f.name, sql⟩ :: ·)

/-- Every migration of a directory, ordered by number. -/
def discoverMigrations (dir : Directory) : Except DiscoveryError (List Migration) :=
  match dir.files with
  | none => .error (.migration ("Migration directory not found: " ++ dir.path))
  | some files =>
      match load digits [] files with
      | .error e => .error e
      | .ok [] => .error (.migration ("No migrations found in " ++ dir.path))
      | .ok (m :: ms) =>
          .ok ((m :: ms).insertionSort fun a b => a.sortKey digits ≤ b.sortKey digits)

/-! ## The database -/

/-- A row of `schema_migrations`. -/
structure Row where
  version : String
  name : String
  checksum : String
deriving DecidableEq

/-- What one transaction did: the start it belongs to, the migration files it
executed, and the rows it inserted. -/
structure Transaction where
  start : Nat
  executed : List String
  inserted : List Row
deriving DecidableEq

def Migration.row (m : Migration) : Row := ⟨m.version, m.name, m.checksumOf checksum⟩

/-- The table, from the transactions that have committed. -/
def rows (committed : List Transaction) : List Row := committed.flatMap Transaction.inserted

/-- `recorded.get(version)`. -/
def recordedChecksum (recorded : List Row) (version : String) : Option String :=
  (recorded.find? fun r => r.version = version).map Row.checksum

/-! ## Starts -/

/-- Where `apply_migrations` is in its loop: what the table read when the lock
was taken, the versions applied and skipped, and the files still to come. -/
structure Loop where
  recorded : List Row
  applied : List String
  skipped : List String
  rest : List Migration
deriving DecidableEq

/-- What a start is doing. -/
inductive Phase
  | undiscovered (error : DiscoveryError)
  | connected (migrations : List Migration)
  | locked (migrations : List Migration)
  | looping (loop : Loop)
  | applying (loop : Loop) (m : Migration) (open_ : Transaction)
  | changed (loop : Loop) (m : Migration)
  | failed (applied : List String) (m : Option Migration)
  | finished (applied skipped : List String)
deriving DecidableEq

/-- The database and every start there has been, numbered in the order they began. -/
structure State where
  committed : List Transaction
  lock : Option Nat
  starts : List Phase
deriving DecidableEq

def State.fresh : State := ⟨[], none, []⟩

inductive Action
  | start (dir : Directory)
  | lock (k : Nat)
  | read (k : Nat)
  | check (k : Nat)
  | record (k : Nat)
  | commit (k : Nat)
  | fail (k : Nat)

def State.put (s : State) (k : Nat) (p : Phase) : State := { s with starts := s.starts.set k p }

/-- The start gives the lock back with its session. -/
def State.ended (s : State) (k : Nat) (p : Phase) : State :=
  { s.put k p with lock := if s.lock = some k then none else s.lock }

/-- The next file of the loop: skipped, refused, or executed in a new transaction. -/
def State.checkNext (s : State) (k : Nat) (l : Loop) : State :=
  match l.rest with
  | [] => s.ended k (.finished l.applied l.skipped)
  | m :: rest =>
      match recordedChecksum l.recorded m.version with
      | some previous =>
          if previous ≠ m.checksumOf checksum then s.ended k (.changed l m)
          else s.put k (.looping { l with skipped := l.skipped ++ [m.version], rest := rest })
      | none => s.put k (.applying { l with rest := rest } m ⟨k, [m.sql], []⟩)

/-- What an exception makes of a start that has not ended. -/
def Phase.afterFailure : Phase → Option Phase
  | .connected _ => some (.failed [] none)
  | .locked _ => some (.failed [] none)
  | .looping l => some (.failed l.applied none)
  | .applying l m _ => some (.failed l.applied (some m))
  | _ => none

/-- One start is carried on by one request, or fails. -/
def step (s : State) : Action → Option State
  | .start dir =>
      some { s with starts := s.starts ++ [
        match discoverMigrations digits dir with
        | .error e => .undiscovered e
        | .ok ms => .connected ms] }
  | .lock k =>
      match s.starts[k]?, s.lock with
      | some (.connected ms), none => some { s.put k (.locked ms) with lock := some k }
      | _, _ => none
  | .read k =>
      match s.starts[k]? with
      | some (.locked ms) => some (s.put k (.looping ⟨rows s.committed, [], [], ms⟩))
      | _ => none
  | .check k =>
      match s.starts[k]? with
      | some (.looping l) => some (s.checkNext checksum k l)
      | _ => none
  | .record k =>
      match s.starts[k]? with
      | some (.applying l m ⟨j, sql, []⟩) =>
          -- `version` is the primary key.
          if recordedChecksum (rows s.committed) m.version = none then
            some (s.put k (.applying l m ⟨j, sql, [m.row checksum]⟩))
          else none
      | _ => none
  | .commit k =>
      match s.starts[k]? with
      | some (.applying l m ⟨j, sql, r :: rs⟩) =>
          some { s.put k (.looping { l with applied := l.applied ++ [m.version] }) with
            committed := s.committed ++ [⟨j, sql, r :: rs⟩] }
      | _ => none
  | .fail k =>
      match s.starts[k]? with
      | some p => p.afterFailure.map (s.ended k)
      | none => none

end SeoAgent.Persistence.Migrator
