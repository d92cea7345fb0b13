import Mathlib.Data.List.Sort
import Mathlib.Logic.Function.Basic

/-!
# A repository of versioned records

Every record is kept under an aggregate type and an id, as the list of all its
versions, oldest first; its version number is the length of that list. A write
adds one version: `create` only where there is none, `replace` only where the
stored version is the expected one, `ensure` is `create` that accepts finding
exactly its own value there. A commit applies several writes or none.

Nothing here removes or changes a version, so what a reader was told about
version `n` of a record stays true (`versionAt_mono`). That is the only fact
about the past that survives other processes, and everything proved above
about stale copies starts from it.

## Main results

* `commit_grows` — a commit only extends the version lists.
* `commit_preserves` — a property kept by each write is kept by a commit.
* `mem_list_iff` — a listing gives exactly the current versions.
-/

namespace SeoAgent.Verified

/-- A complete listing of one aggregate type: at most one entry for an id. -/
structure Listing (α : Type) where
  entries : List (String × α)
  nodup : (entries.map Prod.fst).Nodup

/-- All versions of every record, with the ids that have a record. -/
structure Repository (T : Type) (Payload : T → Type) where
  versions : (t : T) → String → List (Payload t)
  ids : T → List String
  nodup : ∀ t, (ids t).Nodup
  mem_ids : ∀ t i, i ∈ ids t ↔ versions t i ≠ []

namespace Repository

variable {T : Type} {Payload : T → Type} [DecidableEq T]

/-! ## Reading -/

/-- No records. -/
def empty : Repository T Payload where
  versions := fun _ _ => []
  ids := fun _ => []
  nodup := fun _ => List.nodup_nil
  mem_ids := by simp

/-- The current value of a record with its version number. -/
def current (r : Repository T Payload) (t : T) (i : String) :
    Option (Payload t × Nat) :=
  (r.versions t i).getLast?.map fun v => (v, (r.versions t i).length)

/-- The latest version of a record. -/
def latest (r : Repository T Payload) (t : T) (i : String) : Option (Payload t) :=
  (r.versions t i).getLast?

/-- Version `n` of a record, counted from one. -/
def versionAt (r : Repository T Payload) (t : T) (i : String) :
    Nat → Option (Payload t)
  | 0 => none
  | n + 1 => (r.versions t i)[n]?

/-- The current value of every record of a type, ordered by id. -/
def list (r : Repository T Payload) (t : T) : Listing (Payload t × Nat) where
  entries := (r.ids t).filterMap fun i => (r.current t i).map fun x => (i, x)
  nodup := by
    have h : ((r.ids t).filterMap fun i => (r.current t i).map fun x => (i, x)).map
        Prod.fst = (r.ids t).filter fun i => (r.current t i).isSome := by
      rw [List.map_filterMap, ← List.filterMap_eq_filter]
      congr 1
      funext i
      cases h : r.current t i <;> simp [Option.guard, h]
    rw [h]
    exact (r.nodup t).filter _

omit [DecidableEq T] in
theorem current_eq_some_iff {r : Repository T Payload} {t : T} {i : String}
    {v : Payload t} {n : Nat} :
    r.current t i = some (v, n) ↔
      r.versionAt t i n = some v ∧ (r.versions t i).length = n := by
  unfold current
  cases n with
  | zero =>
      constructor
      · intro h
        obtain ⟨w, hw, hv⟩ := Option.map_eq_some_iff.mp h
        obtain ⟨-, hn⟩ := Prod.mk.inj hv
        rw [List.length_eq_zero_iff.mp hn] at hw
        cases hw
      · exact fun h => nomatch h.1
  | succ n =>
      rw [List.getLast?_eq_getElem?]
      constructor
      · intro h
        obtain ⟨w, hw, hv⟩ := Option.map_eq_some_iff.mp h
        obtain ⟨rfl, hn⟩ := Prod.mk.inj hv
        rw [hn] at hw
        exact ⟨hw, hn⟩
      · rintro ⟨hv, hn⟩
        rw [hn]
        exact Option.map_eq_some_iff.mpr ⟨v, hv, rfl⟩

omit [DecidableEq T] in
theorem current_eq_none_iff {r : Repository T Payload} {t : T} {i : String} :
    r.current t i = none ↔ r.versions t i = [] := by
  simp [current]

omit [DecidableEq T] in
theorem mem_list_iff {r : Repository T Payload} {t : T} {i : String}
    {x : Payload t × Nat} :
    (i, x) ∈ (r.list t).entries ↔ r.current t i = some x := by
  simp only [list, List.mem_filterMap, Option.map_eq_some_iff, Prod.mk.injEq]
  constructor
  · rintro ⟨j, -, y, hy, rfl, rfl⟩
    exact hy
  · intro h
    refine ⟨i, (r.mem_ids t i).mpr fun h0 => ?_, x, h, rfl, rfl⟩
    rw [current_eq_none_iff.mpr h0] at h
    cases h

omit [DecidableEq T] in
theorem getLast?_of_current {r : Repository T Payload} {t : T} {i : String}
    {v : Payload t} {n : Nat} (h : r.current t i = some (v, n)) :
    (r.versions t i).getLast? = some v := by
  obtain ⟨w, hw, he⟩ := Option.map_eq_some_iff.mp h
  rw [hw, (Prod.mk.inj he).1]

omit [DecidableEq T] in
theorem current_congr {r s : Repository T Payload} {t : T} {i : String}
    (h : s.versions t i = r.versions t i) : s.current t i = r.current t i := by
  simp only [current, h]

/-! ## One more version -/

/-- Adds an id to an ordered list of ids, once. -/
def insertId (i : String) (is : List String) : List String :=
  if i ∈ is then is else is.orderedInsert (· ≤ ·) i

theorem mem_insertId {i j : String} {is : List String} :
    j ∈ insertId i is ↔ j = i ∨ j ∈ is := by
  unfold insertId
  split
  · next h => exact ⟨.inr, fun hj => hj.elim (fun e => e ▸ h) id⟩
  · exact List.mem_orderedInsert _

theorem nodup_insertId {i : String} {is : List String} (h : is.Nodup) :
    (insertId i is).Nodup := by
  unfold insertId
  split
  · exact h
  · next hi =>
      exact (List.perm_orderedInsert _ i is).nodup_iff.mpr
        (List.nodup_cons.mpr ⟨hi, h⟩)

/-- The repository with one more version of a record. -/
def append (r : Repository T Payload) (t : T) (i : String) (v : Payload t) :
    Repository T Payload where
  versions := Function.update r.versions t
    (Function.update (r.versions t) i (r.versions t i ++ [v]))
  ids := Function.update r.ids t (insertId i (r.ids t))
  nodup := fun t' => by
    by_cases h : t' = t
    · subst h
      rw [Function.update_self]
      exact nodup_insertId (r.nodup t')
    · rw [Function.update_of_ne h]
      exact r.nodup t'
  mem_ids := fun t' i' => by
    by_cases h : t' = t
    · subst h
      rw [Function.update_self, Function.update_self, mem_insertId]
      by_cases hi : i' = i
      · subst hi
        simp
      · simp [hi, r.mem_ids]
    · rw [Function.update_of_ne h, Function.update_of_ne h]
      exact r.mem_ids t' i'

section Append
variable (r : Repository T Payload) (t : T) (i : String) (v : Payload t)

@[simp] theorem versions_append_self :
    (r.append t i v).versions t i = r.versions t i ++ [v] := by
  simp [append]

@[simp] theorem current_append_self :
    (r.append t i v).current t i = some (v, (r.versions t i).length + 1) := by
  simp [current]

theorem versions_append_of_ne_type {t' : T} (h : t' ≠ t) (j : String) :
    (r.append t i v).versions t' j = r.versions t' j := by
  simp [append, Function.update_of_ne h]

theorem versions_append_of_ne {j : String} (h : j ≠ i) :
    (r.append t i v).versions t j = r.versions t j := by
  simp [append, Function.update_of_ne h]

/-- The versions of a record after one more version of some record. -/
theorem versions_append (j : String) :
    (r.append t i v).versions t j =
      if j = i then r.versions t j ++ [v] else r.versions t j := by
  split
  · next h => subst h; exact versions_append_self r t j v
  · next h => exact versions_append_of_ne r t i v h

end Append

/-! ## Growth -/

/-- `s` has every version `r` has. -/
def Grows (r s : Repository T Payload) : Prop :=
  ∀ t i, r.versions t i <+: s.versions t i

omit [DecidableEq T] in
theorem Grows.refl (r : Repository T Payload) : r.Grows r :=
  fun _ _ => List.prefix_refl _

omit [DecidableEq T] in
theorem Grows.trans {r s u : Repository T Payload} (h₁ : r.Grows s)
    (h₂ : s.Grows u) : r.Grows u :=
  fun t i => (h₁ t i).trans (h₂ t i)

theorem grows_append (r : Repository T Payload) (t : T) (i : String)
    (v : Payload t) : r.Grows (r.append t i v) := by
  intro t' j
  by_cases h : t' = t
  · subst h
    rw [versions_append]
    split
    · exact List.prefix_append _ _
    · exact List.prefix_refl _
  · have hkept := versions_append_of_ne_type r t i v h j
    exact hkept.symm ▸ List.prefix_refl _

omit [DecidableEq T] in
/-- What was a version stays that version. -/
theorem versionAt_mono {r s : Repository T Payload} (h : r.Grows s) {t : T}
    {i : String} {n : Nat} {v : Payload t} (hv : r.versionAt t i n = some v) :
    s.versionAt t i n = some v := by
  cases n with
  | zero => cases hv
  | succ n =>
      obtain ⟨hlt, hget⟩ := List.getElem?_eq_some_iff.mp hv
      exact (List.prefix_iff_getElem?.mp (h t i) n hlt).trans (congrArg some hget)

omit [DecidableEq T] in
theorem le_length_of_versionAt {r : Repository T Payload} {t : T} {i : String}
    {n : Nat} {v : Payload t} (hv : r.versionAt t i n = some v) :
    n ≤ (r.versions t i).length := by
  cases n with
  | zero => exact Nat.zero_le _
  | succ n => exact (List.getElem?_eq_some_iff.mp hv).1

omit [DecidableEq T] in
theorem mem_of_versionAt {r : Repository T Payload} {t : T} {i : String}
    {n : Nat} {v : Payload t} (hv : r.versionAt t i n = some v) :
    v ∈ r.versions t i := by
  cases n with
  | zero => cases hv
  | succ n => exact List.mem_of_getElem? hv

omit [DecidableEq T] in
/-- A repository that grew without adding a version to a record kept it. -/
theorem Grows.versions_eq {r s : Repository T Payload} (h : r.Grows s) {t : T}
    {i : String} (hl : (s.versions t i).length ≤ (r.versions t i).length) :
    s.versions t i = r.versions t i :=
  ((h t i).eq_of_length_le hl).symm

/-! ## Writes -/

/-- One write to the repository. -/
inductive Write (T : Type) (Payload : T → Type)
  | create (t : T) (i : String) (v : Payload t)
  | replace (t : T) (i : String) (v : Payload t) (expected : Nat)
  | ensure (t : T) (i : String) (v : Payload t)

/-- The record a write is about. -/
def Write.target : Write T Payload → T × String
  | .create t i _ => (t, i)
  | .replace t i _ _ => (t, i)
  | .ensure t i _ => (t, i)

/-- The value a write carries satisfies a predicate. -/
def Write.Carries (V : (t : T) → String → Payload t → Prop) :
    Write T Payload → Prop
  | .create t i v => V t i v
  | .replace t i v _ => V t i v
  | .ensure t i v => V t i v

/-- Why a write was not made. -/
inductive Refusal
  | taken
  | stale (expected found : Nat)
  | notFound
  deriving DecidableEq, Repr

variable [∀ t, DecidableEq (Payload t)]

/-- One write. -/
def apply (r : Repository T Payload) :
    Write T Payload → Except Refusal (Repository T Payload)
  | .create t i v =>
      if r.versions t i = [] then .ok (r.append t i v) else .error .taken
  | .replace t i v expected =>
      if r.versions t i = [] then .error .notFound
      else if (r.versions t i).length = expected then .ok (r.append t i v)
      else .error (.stale expected (r.versions t i).length)
  | .ensure t i v =>
      if r.versions t i = [] then .ok (r.append t i v)
      else if (r.versions t i).getLast? = some v then .ok r
      else .error .taken

/-- A transaction: all writes, or the first refusal and none of them. -/
def commit (r : Repository T Payload) :
    List (Write T Payload) → Except Refusal (Repository T Payload)
  | [] => .ok r
  | w :: ws =>
      match r.apply w with
      | .ok s => s.commit ws
      | .error e => .error e

/-- What one write can do. -/
inductive Applied (r : Repository T Payload) :
    Write T Payload → Repository T Payload → Prop
  | create {t i v} (fresh : r.versions t i = []) :
      Applied r (.create t i v) (r.append t i v)
  | replace {t i v n} (present : r.versions t i ≠ [])
      (expected : (r.versions t i).length = n) :
      Applied r (.replace t i v n) (r.append t i v)
  | ensure {t i v} (fresh : r.versions t i = []) :
      Applied r (.ensure t i v) (r.append t i v)
  | same {t i v} (there : (r.versions t i).getLast? = some v) :
      Applied r (.ensure t i v) r

theorem applied_of_apply {r s : Repository T Payload} {w : Write T Payload}
    (h : r.apply w = .ok s) : Applied r w s := by
  cases w with
  | create t i v =>
      simp only [apply] at h
      split at h
      · next hf => cases h; exact .create hf
      · cases h
  | replace t i v n =>
      simp only [apply] at h
      split at h
      · cases h
      · next hp =>
          split at h
          · next hn => cases h; exact .replace hp hn
          · cases h
  | ensure t i v =>
      simp only [apply] at h
      split at h
      · next hf => cases h; exact .ensure hf
      · split at h
        · next hs => cases h; exact .same hs
        · cases h

theorem apply_create {r s : Repository T Payload} {t : T} {i : String}
    {v : Payload t} (h : r.apply (.create t i v) = .ok s) :
    r.versions t i = [] ∧ s = r.append t i v := by
  simp only [apply] at h
  split at h
  · next hf => exact ⟨hf, (Except.ok.inj h).symm⟩
  · cases h

theorem apply_replace {r s : Repository T Payload} {t : T} {i : String}
    {v : Payload t} {n : Nat} (h : r.apply (.replace t i v n) = .ok s) :
    (r.versions t i).length = n ∧ s = r.append t i v := by
  simp only [apply] at h
  split at h
  · cases h
  · split at h
    · next hn => exact ⟨hn, (Except.ok.inj h).symm⟩
    · cases h

theorem apply_grows {r s : Repository T Payload} {w : Write T Payload}
    (h : r.apply w = .ok s) : r.Grows s := by
  cases applied_of_apply h with
  | create => exact grows_append r _ _ _
  | replace => exact grows_append r _ _ _
  | ensure => exact grows_append r _ _ _
  | same => exact Grows.refl r

/-- A write leaves every other record alone. -/
theorem apply_versions_of_ne {r s : Repository T Payload} {w : Write T Payload}
    (h : r.apply w = .ok s) {t : T} {i : String} (hne : w.target ≠ (t, i)) :
    s.versions t i = r.versions t i := by
  have key : ∀ t' j v, (t', j) ≠ (t, i) →
      (r.append t' j v).versions t i = r.versions t i := by
    intro t' j v hne
    by_cases ht : t = t'
    · subst ht
      exact versions_append_of_ne r t j v fun h => hne (by rw [h])
    · exact versions_append_of_ne_type r t' j v ht i
  cases applied_of_apply h with
  | create => exact key _ _ _ hne
  | replace => exact key _ _ _ hne
  | ensure => exact key _ _ _ hne
  | same => rfl

/-- A write adds at most the value it carries. -/
theorem apply_all {V : (t : T) → String → Payload t → Prop}
    {r s : Repository T Payload} {w : Write T Payload} (h : r.apply w = .ok s)
    (hw : w.Carries V) (hr : ∀ t i, ∀ v ∈ r.versions t i, V t i v) :
    ∀ t i, ∀ v ∈ s.versions t i, V t i v := by
  have key : ∀ t' j v', V t' j v' →
      ∀ t i, ∀ v ∈ (r.append t' j v').versions t i, V t i v := by
    intro t' j v' hv' t i v hv
    by_cases ht : t = t'
    · subst ht
      rw [versions_append] at hv
      split at hv
      · next hi =>
          subst hi
          rcases List.mem_append.mp hv with hv | hv
          · exact hr t i v hv
          · exact List.mem_singleton.mp hv ▸ hv'
      · exact hr t i v hv
    · rw [versions_append_of_ne_type r t' j v' ht] at hv
      exact hr t i v hv
  cases applied_of_apply h with
  | create => exact key _ _ _ hw
  | replace => exact key _ _ _ hw
  | ensure => exact key _ _ _ hw
  | same => exact hr

theorem commit_cons {r s : Repository T Payload} {w : Write T Payload}
    {ws : List (Write T Payload)} :
    r.commit (w :: ws) = .ok s ↔
      ∃ u, r.apply w = .ok u ∧ u.commit ws = .ok s := by
  simp only [commit]
  constructor
  · intro h
    split at h
    · next u hu => exact ⟨u, hu, h⟩
    · cases h
  · rintro ⟨u, hu, hs⟩
    rw [hu]
    exact hs

theorem commit_singleton {r s : Repository T Payload} {w : Write T Payload} :
    r.commit [w] = .ok s ↔ r.apply w = .ok s := by
  rw [commit_cons]
  constructor
  · rintro ⟨u, hu, hs⟩
    rw [hu, Except.ok.inj hs]
  · exact fun h => ⟨s, h, rfl⟩

theorem commit_append {r s : Repository T Payload}
    {ws ws' : List (Write T Payload)} :
    r.commit (ws ++ ws') = .ok s ↔
      ∃ u, r.commit ws = .ok u ∧ u.commit ws' = .ok s := by
  induction ws generalizing r with
  | nil => exact ⟨fun h => ⟨r, rfl, h⟩, fun ⟨_, hu, hs⟩ => Except.ok.inj hu ▸ hs⟩
  | cons w ws ih =>
      simp only [List.cons_append, commit_cons, ih]
      constructor
      · rintro ⟨u, hu, u', hu', hs⟩
        exact ⟨u', ⟨u, hu, hu'⟩, hs⟩
      · rintro ⟨u', ⟨u, hu, hu'⟩, hs⟩
        exact ⟨u, hu, u', hu', hs⟩

/-- A property kept by each write, from any state between, is kept by the
commit. -/
theorem commit_preserves {P : Repository T Payload → Prop}
    {ws : List (Write T Payload)} {r s : Repository T Payload}
    (hw : ∀ w ∈ ws, ∀ u u', r.Grows u → P u → u.apply w = .ok u' → P u')
    (hP : P r) (h : r.commit ws = .ok s) : P s := by
  suffices H : ∀ ws' u, (∀ w ∈ ws', w ∈ ws) → r.Grows u → P u →
      u.commit ws' = .ok s → P s from
    H ws r (fun _ h => h) (Grows.refl r) hP h
  intro ws'
  induction ws' with
  | nil => intro u _ _ hPu hu; cases hu; exact hPu
  | cons w ws' ih =>
      intro u hsub hg hPu hu
      obtain ⟨u', hu', hs⟩ := commit_cons.mp hu
      exact ih u' (fun x hx => hsub x (List.mem_cons_of_mem _ hx))
        (hg.trans (apply_grows hu'))
        (hw w (hsub w List.mem_cons_self) u u' hg hPu hu') hs

theorem commit_grows {r s : Repository T Payload} {ws : List (Write T Payload)}
    (h : r.commit ws = .ok s) : r.Grows s :=
  commit_preserves (P := r.Grows)
    (fun _ _ _ _ _ hg hu => hg.trans (apply_grows hu)) (Grows.refl r) h

/-- A commit leaves the records alone that none of its writes is about. -/
theorem commit_versions_of_ne {r s : Repository T Payload}
    {ws : List (Write T Payload)} (h : r.commit ws = .ok s) {t : T}
    {i : String} (hne : ∀ w ∈ ws, w.target ≠ (t, i)) :
    s.versions t i = r.versions t i :=
  commit_preserves (P := fun u => u.versions t i = r.versions t i)
    (fun w hw _ _ _ hP hu => (apply_versions_of_ne hu (hne w hw)).trans hP) rfl h

end Repository

end SeoAgent.Verified
