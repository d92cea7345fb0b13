import SeoAgent.Verified.IsoTime
import SeoAgent.Verified.Overwrite

/-!
# Daily budgets of requests

`RequestBudget` and `CombinedBudget` (`app/keyword_intel/cache.py`): one versioned document
a scope and day, in Tehran time, that every process counts in. A write that another process
was faster than is tried again after a new read, five times by `consume` and three times by
`upsert`.

## Main results

* `keyOf_scope` — documents of one key are of one scope.
-/

namespace SeoAgent.KeywordIntel

open SeoAgent.Verified Service

/-! ## Days -/

/-- Days since the epoch of a clock reading, in `TEHRAN`. -/
def tehranDay (at_ : Int) : Int := (at_ + 12600000000) / 86400000000

/-- `date.isoformat` of a day since the epoch: years are counted from March in eras of 400
years. -/
def dateText (day : Int) : List Char :=
  let shifted := day + 719468
  let era := shifted / 146097
  let dayOfEra := (shifted % 146097).toNat
  let yearOfEra :=
    (dayOfEra - dayOfEra / 1460 + dayOfEra / 36524 - dayOfEra / 146096) / 365
  let dayOfYear := dayOfEra - (365 * yearOfEra + yearOfEra / 4 - yearOfEra / 100)
  let fromMarch := (5 * dayOfYear + 2) / 153
  let month := if fromMarch < 10 then fromMarch + 3 else fromMarch - 9
  let year := (era * 400 + yearOfEra).toNat + if month ≤ 2 then 1 else 0
  IsoTime.padded 4 year ++ '-' :: (IsoTime.padded 2 month ++
    '-' :: IsoTime.padded 2 (dayOfYear - (153 * fromMarch + 2) / 5 + 1))

theorem padded_length (width n : Nat) : (IsoTime.padded width n).length = width := by
  induction width generalizing n with
  | zero => rfl
  | succ width ih => rw [IsoTime.padded, List.length_append, ih, List.length_singleton]

theorem dateText_length (day : Int) : (dateText day).length = 10 := by
  simp [dateText, padded_length]

/-- `_key` at a reading of the clock. -/
def keyOf (scope : String) (at_ : Int) : String :=
  scope ++ ":" ++ String.ofList (dateText (tehranDay at_))

/-- Documents of one key are of one scope. -/
theorem keyOf_scope {scope scope' : String} {at_ at_' : Int}
    (h : keyOf scope at_ = keyOf scope' at_') : scope = scope' := by
  have hchars := congrArg String.toList h
  simp only [keyOf, String.toList_append, String.toList_ofList, List.append_assoc] at hchars
  have hlength : (":".toList ++ dateText (tehranDay at_)).length =
      (":".toList ++ dateText (tehranDay at_')).length := by
    rw [List.length_append, List.length_append, dateText_length, dateText_length]
  exact String.toList_inj.mp (List.append_inj' hchars hlength).1

/-! ## Documents -/

/-- The stored document of a scope and day. -/
structure BudgetDocument where
  used : Nat
  limit : Nat
  providerSaid : Bool := false
  deriving DecidableEq, Repr

inductive BudgetType
  | providerBudget
  deriving DecidableEq, Repr

inductive BudgetExc
  | persistenceConflictError
  | persistenceNotFoundError (message : String)
  | databaseError (message : String)
  | budgetExhaustedError (message : String)
  | indexError
  deriving DecidableEq, Repr

def BudgetExc.refused (_ : BudgetType) (i : String) : Repository.Refusal → BudgetExc
  | .notFound => persistenceNotFoundError i
  | _ => persistenceConflictError

@[reducible] def budgetBackend : Backend where
  T := BudgetType
  Payload := fun _ => BudgetDocument
  Exn := BudgetExc
  refused := BudgetExc.refused
  broken := .databaseError

/-- Budgets ask for nothing outside their store. -/
@[reducible] def budgetOutside : Outside BudgetExc where
  Op := Empty
  Res := fun x => nomatch x
  State := Unit
  Choice := Empty
  Env := Empty
  exec := fun _ x _ => nomatch x
  change := fun _ e => nomatch e

abbrev BudgetProc (α : Type) : Type := Proc budgetBackend budgetOutside α

abbrev BudgetPast : Type := Past budgetBackend budgetOutside

abbrev BudgetWrites : Type := Writes budgetBackend

abbrev BudgetRecords : Type := Repository BudgetType fun _ => BudgetDocument

abbrev BudgetOperation : Type := Op budgetBackend budgetOutside

abbrev BudgetChoice : Type := Choice (B := budgetBackend) budgetOutside

abbrev readClock : BudgetProc Int := Service.now (B := budgetBackend) (X := budgetOutside)

/-- `_Store.read`. -/
abbrev readDocument (key : String) : BudgetProc (Option (BudgetDocument × Nat)) :=
  Service.find (B := budgetBackend) (X := budgetOutside) .providerBudget key

/-- A write over what was read. -/
abbrev writing (key : String) (doc : BudgetDocument) (current : Option (BudgetDocument × Nat)) :
    BudgetWrites :=
  [overWrite (B := budgetBackend) .providerBudget key doc current]

/-- `_Store.write`. -/
abbrev writeDocument (key : String) (doc : BudgetDocument)
    (current : Option (BudgetDocument × Nat)) : BudgetProc Unit :=
  Service.commit (B := budgetBackend) (X := budgetOutside) (writing key doc current)

/-- A write; another try of something else in its place when somebody was faster. -/
def writeOr (key : String) (doc : BudgetDocument) (current : Option (BudgetDocument × Nat))
    (again : BudgetProc Unit) : BudgetProc Unit :=
  tryCatch (writeDocument key doc current) fun
    | .persistenceConflictError => again
    | e => throw e

/-- `_Store.upsert`, with the tries left. -/
def upsert (key : String) (doc : BudgetDocument) : Nat → BudgetProc Unit
  | 0 => pure ()
  | tries + 1 => do
      let current ← readDocument key
      writeOr key doc current (upsert key doc tries)

/-! ## Budgets -/

/-- The count of a document, none being there yet. -/
def usedOf (current : Option (BudgetDocument × Nat)) : Nat :=
  match current with
  | none => 0
  | some (doc, _) => doc.used

section Limits
-- The daily limits of the scopes.
variable (limits : String → Nat)

/-- What a request leaves of a document. -/
def taking (scope : String) (current : Option (BudgetDocument × Nat)) : BudgetDocument :=
  { used := usedOf current + 1, limit := limits scope }

/-- What the provider's refusal leaves of it. -/
def spent (scope : String) : BudgetDocument :=
  { used := limits scope, limit := limits scope, providerSaid := true }

/-- `remaining`. -/
def remaining (scope : String) : BudgetProc Nat := do
  let at_ ← readClock
  let current ← readDocument (keyOf scope at_)
  pure (limits scope - usedOf current)

/-- The tries of `consume`. -/
def consumeTries (scope key : String) : Nat → BudgetProc Unit
  | 0 => throw (.budgetExhaustedError
      "The request budget is too contended right now; try again.")
  | tries + 1 => do
      let current ← readDocument key
      if usedOf current ≥ limits scope then
        throw (.budgetExhaustedError
          s!"Today's budget of {limits scope} requests to {scope} is spent.")
      else writeOr key (taking limits scope current) current (consumeTries scope key tries)

/-- `RequestBudget.consume`. -/
def consume (scope : String) : BudgetProc Unit := do
  let at_ ← readClock
  consumeTries limits scope (keyOf scope at_) 5

/-- `RequestBudget.exhaust`. -/
def exhaust (scope : String) : BudgetProc Unit := do
  let at_ ← readClock
  upsert (keyOf scope at_) (spent limits scope) 3

/-- All budgets have room. -/
def checkAll : List String → BudgetProc Unit
  | [] => pure ()
  | scope :: rest => do
      let left ← remaining limits scope
      if left ≤ 0 then throw (.budgetExhaustedError "Today's request budget is spent.")
      else checkAll rest

/-- One request from each. -/
def consumeAll : List String → BudgetProc Unit
  | [] => pure ()
  | scope :: rest => do
      consume limits scope
      consumeAll rest

/-- `CombinedBudget.consume`. -/
def combinedConsume (scopes : List String) : BudgetProc Unit := do
  checkAll limits scopes
  consumeAll limits scopes

/-- `CombinedBudget.exhaust`. -/
def combinedExhaust (scopes : List String) : BudgetProc Unit :=
  match scopes.getLast? with
  | none => throw .indexError
  | some scope => exhaust limits scope

/-! ## The machine -/

inductive BudgetKind
  | consume (scope : String)
  | exhaust (scope : String)
  | combinedConsume (scopes : List String)
  | combinedExhaust (scopes : List String)

def budgetBody : BudgetKind → BudgetProc Unit
  | .consume scope => KeywordIntel.consume limits scope
  | .exhaust scope => KeywordIntel.exhaust limits scope
  | .combinedConsume scopes => KeywordIntel.combinedConsume limits scopes
  | .combinedExhaust scopes => KeywordIntel.combinedExhaust limits scopes

/-- Any number of calls at once, in any number of processes. -/
@[reducible] def budgetProcesses : Processes budgetBackend budgetOutside where
  Kind := BudgetKind
  body := budgetBody limits
  admits := fun _ _ => true

@[reducible] def budgetMachine : Machine (iface budgetBackend budgetOutside) :=
  Service.machine (budgetProcesses limits)

/-- No request was made yet. -/
def nothingUsed : World budgetBackend budgetOutside := ⟨Repository.empty, ()⟩

end Limits

end SeoAgent.KeywordIntel
