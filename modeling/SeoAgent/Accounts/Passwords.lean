import Mathlib.Data.List.GetD
import SeoAgent.Verified.Base64

/-!
# Passwords

`app/accounts/passwords.py`: a stored hash is a text of six fields, the scheme, the three
parameters of scrypt, the salt and the key. Scrypt and the reading of an integer are those of
the standard library.

## Main results

* `verifyPassword_hashPassword` — a password is verified against its hash.
* `needsRehash_hashPassword` — a new hash needs no other.
-/

namespace SeoAgent.Accounts

open SeoAgent.Verified

/-- `hashlib.scrypt` of a password with a salt, `n`, `r` and `p`, and `int` of a text; `none`
for a `ValueError`. -/
structure PasswordLibrary where
  scrypt : String → List UInt8 → Int → Int → Int → Option (List UInt8)
  int : List Char → Option Int
  int_digits : ∀ n : Nat, int (Nat.toDigits 10 n) = some n

variable (lib : PasswordLibrary)

/-- `N, R, P`. -/
def scryptN : Nat := 16384

def scryptR : Nat := 8

def scryptP : Nat := 1

def minLength : Nat := 10

def maxLength : Nat := 256

/-- `check_strength`. -/
def strong (password : String) : Bool := minLength ≤ password.length && password.length ≤ maxLength

/-- The fields of a hash with a salt and a key. -/
def hashFields (salt key : List UInt8) : List (List Char) :=
  ["scrypt".toList, Nat.toDigits 10 scryptN, Nat.toDigits 10 scryptR, Nat.toDigits 10 scryptP,
    Base64.encode salt, Base64.encode key]

/-- `hash_password` with the salt that was drawn; `none` for a `ValueError`. -/
def hashPassword (password : String) (salt : List UInt8) : Option String :=
  if strong password then
    (lib.scrypt password salt scryptN scryptR scryptP).map fun key =>
      String.ofList (['$'].intercalate (hashFields salt key))
  else none

/-- `stored.split("$")`. -/
def fieldsOf (stored : String) : List (List Char) := stored.toList.splitOn '$'

/-- `urlsafe_b64decode` of a text. -/
def decodeText (text : List Char) : Option (List UInt8) :=
  if text.all (·.toNat < 128) then Base64.decode text else none

/-- The key that scrypt makes of a password with the fields of a hash. -/
def derived (password : String) (n r p salt : List Char) : Option (List UInt8) :=
  match decodeText salt, lib.int n, lib.int r, lib.int p with
  | some salt, some n, some r, some p => lib.scrypt password salt n r p
  | _, _, _, _ => none

/-- `verify_password`. -/
def verifyPassword (password : String) (stored : Option String) : Bool :=
  match stored with
  | none => false
  | some stored =>
      if stored = "" ∨ maxLength < password.length then false
      else
        match fieldsOf stored with
        | [scheme, n, r, p, salt, key] =>
            if scheme ≠ "scrypt".toList then false
            else
              match decodeText key, derived lib password n r p salt with
              | some expected, some actual => actual = expected
              | _, _ => false
        | _ => false

/-- `needs_rehash`. -/
def needsRehash (stored : String) : Bool :=
  match fieldsOf stored with
  | scheme :: n :: r :: p :: _ =>
      scheme ≠ "scrypt".toList ||
        (lib.int n, lib.int r, lib.int p) ≠ (some ↑scryptN, some ↑scryptR, some ↑scryptP)
  | _ => true

section Lemmas
variable {lib : PasswordLibrary} {password stored : String} {salt key : List UInt8}

/-- No character of the alphabet, and no pad, is a dollar or outside ASCII. -/
theorem encode_all (bytes : List UInt8) :
    ∀ c ∈ Base64.encode bytes, c ≠ '$' ∧ c.toNat < 128 := by
  have hsextet : ∀ n, Base64.sextetChar n ≠ '$' ∧ (Base64.sextetChar n).toNat < 128 := by
    intro n
    by_cases hn : n < 64
    · have hall : ∀ n < 64, Base64.sextetChar n ≠ '$' ∧ (Base64.sextetChar n).toNat < 128 := by
        decide +kernel
      exact hall n hn
    · have hpad : Base64.sextetChar n = '=' :=
        List.getD_eq_default _ _ (Nat.le_of_not_lt hn)
      rw [hpad]
      decide
  have hpad : '=' ≠ '$' ∧ '='.toNat < 128 := by decide
  induction bytes using Base64.encode.induct with
  | case1 => exact fun c hc => absurd hc List.not_mem_nil
  | case2 a => simp [Base64.encode, hsextet]
  | case3 a b => simp [Base64.encode, hsextet]
  | case4 a b c rest ih =>
      intro d hd
      simp only [Base64.encode, List.mem_cons] at hd
      rcases hd with rfl | rfl | rfl | rfl | hd
      · exact hsextet _
      · exact hsextet _
      · exact hsextet _
      · exact hsextet _
      · exact ih d hd

theorem decodeText_encode (bytes : List UInt8) :
    decodeText (Base64.encode bytes) = some bytes := by
  have hall : (Base64.encode bytes).all (·.toNat < 128) = true :=
    List.all_eq_true.mpr fun c hc => decide_eq_true (encode_all bytes c hc).2
  unfold decodeText
  rw [if_pos hall, Base64.decode_encode]

/-- The fields of a hash are those it was made of. -/
theorem fieldsOf_hash (salt key : List UInt8) :
    fieldsOf (String.ofList (['$'].intercalate (hashFields salt key))) = hashFields salt key := by
  unfold fieldsOf
  rw [String.toList_ofList]
  refine List.splitOn_intercalate '$' ?_ (List.cons_ne_nil _ _)
  intro field hfield hdollar
  simp only [hashFields, List.mem_cons, List.not_mem_nil, or_false] at hfield
  rcases hfield with rfl | rfl | rfl | rfl | rfl | rfl
  · exact absurd hdollar (by decide +kernel)
  · exact absurd hdollar (by decide +kernel)
  · exact absurd hdollar (by decide +kernel)
  · exact absurd hdollar (by decide +kernel)
  · exact (encode_all salt '$' hdollar).1 rfl
  · exact (encode_all key '$' hdollar).1 rfl

theorem hashPassword_some (h : hashPassword lib password salt = some stored) :
    ∃ key, strong password = true ∧
      lib.scrypt password salt scryptN scryptR scryptP = some key ∧
      fieldsOf stored = hashFields salt key ∧ stored ≠ "" := by
  unfold hashPassword at h
  split at h
  · next hstrong =>
      obtain ⟨key, hkey, rfl⟩ := Option.map_eq_some_iff.mp h
      refine ⟨key, hstrong, hkey, fieldsOf_hash salt key, fun hempty => ?_⟩
      have hfields := fieldsOf_hash salt key
      rw [hempty] at hfields
      have hlength := congrArg List.length hfields
      exact absurd hlength (by simp [fieldsOf, hashFields])
  · cases h

/-- A password is verified against its hash. -/
theorem verifyPassword_hashPassword (h : hashPassword lib password salt = some stored) :
    verifyPassword lib password (some stored) = true := by
  obtain ⟨key, hstrong, hkey, hfields, hne⟩ := hashPassword_some h
  have hlength : ¬(stored = "" ∨ maxLength < password.length) := by
    simp only [strong, Bool.and_eq_true, decide_eq_true_eq] at hstrong
    exact not_or.mpr ⟨hne, Nat.not_lt.mpr hstrong.2⟩
  have hderived : derived lib password (Nat.toDigits 10 scryptN) (Nat.toDigits 10 scryptR)
      (Nat.toDigits 10 scryptP) (Base64.encode salt) = some key := by
    unfold derived
    rw [decodeText_encode, lib.int_digits, lib.int_digits, lib.int_digits]
    exact hkey
  unfold verifyPassword
  dsimp only
  rw [if_neg hlength, hfields]
  simp only [hashFields, ne_eq, not_true_eq_false, if_false, hderived, decodeText_encode,
    decide_true]

/-- A new hash has the current parameters. -/
theorem needsRehash_hashPassword (h : hashPassword lib password salt = some stored) :
    needsRehash lib stored = false := by
  obtain ⟨key, -, -, hfields, -⟩ := hashPassword_some h
  unfold needsRehash
  rw [hfields]
  simp only [hashFields, lib.int_digits]
  decide

end Lemmas

end SeoAgent.Accounts
