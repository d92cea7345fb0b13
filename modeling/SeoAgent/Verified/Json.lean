/-!
# JSON values and dictionaries

The payloads, parameters and details of stored records are dictionaries of
JSON values. A dictionary is kept as the list of its entries in insertion
order, each key once; `set` overwrites an entry in place or adds one at the
end, as assignment to a key does.

## Main results

* `Dict.get?_set_self`, `Dict.get?_set_of_ne` — `set` changes one key.
-/

namespace SeoAgent.Verified

/-- A JSON value. Finite floating-point numbers stand as the rationals they
denote. -/
inductive Json where
  | null
  | bool (b : Bool)
  | int (n : Int)
  | number (q : Rat)
  | str (s : String)
  | list (xs : List Json)
  | dict (entries : List (String × Json))

namespace Json

mutual

/-- Equality of values is decidable. -/
def decEq : (a b : Json) → Decidable (a = b)
  | .null, .null => isTrue rfl
  | .bool a, .bool b => decidable_of_iff (a = b) (by simp)
  | .int a, .int b => decidable_of_iff (a = b) (by simp)
  | .number a, .number b => decidable_of_iff (a = b) (by simp)
  | .str a, .str b => decidable_of_iff (a = b) (by simp)
  | .list xs, .list ys =>
      match decEqList xs ys with
      | isTrue h => isTrue (congrArg _ h)
      | isFalse h => isFalse fun e => h (Json.list.inj e)
  | .dict xs, .dict ys =>
      match decEqEntries xs ys with
      | isTrue h => isTrue (congrArg _ h)
      | isFalse h => isFalse fun e => h (Json.dict.inj e)
  | .null, .bool _ | .null, .int _ | .null, .number _ | .null, .str _
  | .null, .list _ | .null, .dict _
  | .bool _, .null | .bool _, .int _ | .bool _, .number _ | .bool _, .str _
  | .bool _, .list _ | .bool _, .dict _
  | .int _, .null | .int _, .bool _ | .int _, .number _ | .int _, .str _
  | .int _, .list _ | .int _, .dict _
  | .number _, .null | .number _, .bool _ | .number _, .int _
  | .number _, .str _ | .number _, .list _ | .number _, .dict _
  | .str _, .null | .str _, .bool _ | .str _, .int _ | .str _, .number _
  | .str _, .list _ | .str _, .dict _
  | .list _, .null | .list _, .bool _ | .list _, .int _ | .list _, .number _
  | .list _, .str _ | .list _, .dict _
  | .dict _, .null | .dict _, .bool _ | .dict _, .int _ | .dict _, .number _
  | .dict _, .str _ | .dict _, .list _ => isFalse nofun

/-- Equality of lists of values is decidable. -/
def decEqList : (xs ys : List Json) → Decidable (xs = ys)
  | [], [] => isTrue rfl
  | [], _ :: _ => isFalse nofun
  | _ :: _, [] => isFalse nofun
  | x :: xs, y :: ys =>
      match decEq x y, decEqList xs ys with
      | isTrue h₁, isTrue h₂ => isTrue (by rw [h₁, h₂])
      | isFalse h, _ => isFalse fun e => h (List.cons.inj e).1
      | _, isFalse h => isFalse fun e => h (List.cons.inj e).2

/-- Equality of lists of entries is decidable. -/
def decEqEntries : (xs ys : List (String × Json)) → Decidable (xs = ys)
  | [], [] => isTrue rfl
  | [], _ :: _ => isFalse nofun
  | _ :: _, [] => isFalse nofun
  | (k, x) :: xs, (l, y) :: ys =>
      match decEq x y, decEqEntries xs ys with
      | isTrue h₁, isTrue h₂ =>
          decidable_of_iff (k = l) (by simp [h₁, h₂])
      | isFalse h, _ => isFalse fun e => h (Prod.mk.inj (List.cons.inj e).1).2
      | _, isFalse h => isFalse fun e => h (List.cons.inj e).2

end

instance : DecidableEq Json := decEq

/-- Truth of a value where the language asks for it. -/
def truthy : Json → Bool
  | null => false
  | bool b => b
  | int n => n != 0
  | number q => q != 0
  | str s => s != ""
  | list xs => !xs.isEmpty
  | dict es => !es.isEmpty

end Json

/-- A dictionary with its entries in insertion order. -/
abbrev Dict : Type := List (String × Json)

namespace Dict

/-- The value under a key. -/
def get? (d : Dict) (k : String) : Option Json := d.lookup k

/-- The value under a key, or a default. -/
def getD (d : Dict) (k : String) (default : Json) : Json :=
  (d.get? k).getD default

/-- Assigns one key. -/
def set : Dict → String → Json → Dict
  | [], k, v => [(k, v)]
  | (l, w) :: d, k, v => if l = k then (k, v) :: d else (l, w) :: set d k v

/-- Assigns the entries of the second dictionary over the first. -/
def merge (d e : Dict) : Dict := e.foldl (fun acc x => acc.set x.1 x.2) d

@[simp] theorem get?_nil (k : String) : get? [] k = none := rfl

theorem get?_cons (l k : String) (v : Json) (d : Dict) :
    get? ((l, v) :: d) k = if k = l then some v else get? d k := by
  unfold get?
  rw [List.lookup_cons]
  by_cases h : k = l
  · simp [h]
  · simp [h, beq_false_of_ne h]

@[simp] theorem get?_set_self (d : Dict) (k : String) (v : Json) :
    (d.set k v).get? k = some v := by
  induction d with
  | nil => simp [set, get?_cons]
  | cons x d ih =>
      obtain ⟨l, w⟩ := x
      unfold set
      split
      · simp [get?_cons]
      · next h => simp [get?_cons, Ne.symm h, ih]

theorem get?_set_of_ne (d : Dict) {k l : String} (v : Json) (h : l ≠ k) :
    (d.set k v).get? l = d.get? l := by
  induction d with
  | nil => simp [set, get?_cons, h]
  | cons x d ih =>
      obtain ⟨m, w⟩ := x
      unfold set
      split
      · next hm => subst hm; simp [get?_cons, h]
      · simp [get?_cons, ih]

end Dict

end SeoAgent.Verified
