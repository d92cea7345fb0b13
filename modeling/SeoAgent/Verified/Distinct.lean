import Mathlib.Data.List.Lookmap
import Mathlib.Data.List.Perm.Basic
import Mathlib.Data.List.Nodup

/-!
# Distinct entries

Rows are read one by one into entries, a key and its value. A key that comes again
with the same value is a repeat and is dropped; with another value it is a conflict
and refuses the whole list.

## Main results

* `readDistinct_ok` — what is kept is what was read, every key once.
* `readDistinct_isOk_iff` — a list is refused for a row that cannot be read or for a
  conflict, and for nothing else.
* `readDistinct_congr` — neither the order of the rows nor repeats matter.
-/

namespace SeoAgent.Verified

variable {α κ β ε : Type} [DecidableEq κ] [DecidableEq β] {conflict : ε}
  {read : α → Except ε (κ × β)} {rows rows' : List α} {kept r : List (κ × β)} {e : κ × β}

/-- The entries with one more: a repeat is dropped, a conflict refused. -/
def keepEntry (conflict : ε) (kept : List (κ × β)) (e : κ × β) :
    Except ε (List (κ × β)) :=
  match kept.find? fun d => d.1 = e.1 with
  | none => .ok (kept ++ [e])
  | some d => if d.2 = e.2 then .ok kept else .error conflict

/-- One more row. -/
def readEntry (conflict : ε) (read : α → Except ε (κ × β)) (kept : List (κ × β)) (row : α) :
    Except ε (List (κ × β)) :=
  match read row with
  | .error exc => .error exc
  | .ok e => keepEntry conflict kept e

/-- The rows from the first to the last, after what was kept so far. -/
def readOn (conflict : ε) (read : α → Except ε (κ × β)) :
    List (κ × β) → List α → Except ε (List (κ × β))
  | kept, [] => .ok kept
  | kept, row :: rows =>
      match readEntry conflict read kept row with
      | .error exc => .error exc
      | .ok kept => readOn conflict read kept rows

/-- The distinct entries of some rows, in the order in which they first come. -/
def readDistinct (conflict : ε) (read : α → Except ε (κ × β)) (rows : List α) :
    Except ε (List (κ × β)) :=
  readOn conflict read [] rows

/-- Two entries with one key have one value. -/
def Consistent (es : κ × β → Prop) : Prop :=
  ∀ d e, es d → es e → d.1 = e.1 → d.2 = e.2

/-- What the rows say. -/
def Says (read : α → Except ε (κ × β)) (rows : List α) (e : κ × β) : Prop :=
  ∃ row ∈ rows, read row = .ok e

omit [DecidableEq β] in
theorem find?_key_eq_some (hnodup : (kept.map Prod.fst).Nodup) (he : e ∈ kept) {k : κ}
    (hk : e.1 = k) : kept.find? (fun d => d.1 = k) = some e := by
  induction kept with
  | nil => cases he
  | cons d kept ih =>
      rw [List.map_cons, List.nodup_cons] at hnodup
      rw [List.find?_cons]
      rcases List.mem_cons.mp he with rfl | he
      · rw [decide_eq_true hk]
      · have hne : ¬d.1 = k := fun hd =>
          hnodup.1 (List.mem_map.mpr ⟨e, he, hk.trans hd.symm⟩)
        rw [decide_eq_false hne]
        exact ih hnodup.2 he

/-- What one more entry makes of entries with distinct keys. -/
theorem keepEntry_ok (hnodup : (kept.map Prod.fst).Nodup)
    (h : keepEntry conflict kept e = .ok r) :
    (r.map Prod.fst).Nodup ∧ ∀ d, d ∈ r ↔ d ∈ kept ∨ d = e := by
  unfold keepEntry at h
  split at h
  · next hnone =>
      obtain rfl := Except.ok.inj h
      have hnew : ∀ d ∈ kept, ¬d.1 = e.1 := by simpa using hnone
      refine ⟨?_, by simp⟩
      rw [List.map_append, List.map_singleton, List.nodup_append]
      refine ⟨hnodup, by simp, ?_⟩
      intro k hk k' hk' heq
      obtain ⟨d, hd, rfl⟩ := List.mem_map.mp hk
      exact hnew d hd (heq.trans (List.mem_singleton.mp hk'))
  · next d hfound =>
      split at h
      · next hvalue =>
          obtain rfl := Except.ok.inj h
          have hkey : d.1 = e.1 := by simpa using List.find?_some hfound
          have hde : d = e := Prod.ext hkey hvalue
          refine ⟨hnodup, fun d' => ⟨.inl, ?_⟩⟩
          rintro (hd' | rfl)
          · exact hd'
          · exact hde ▸ List.mem_of_find?_eq_some hfound
      · cases h

/-- An entry is refused for a conflict with one that was kept. -/
theorem keepEntry_error (h : ∀ d ∈ kept, d.1 = e.1 → d.2 = e.2) :
    ∃ r, keepEntry conflict kept e = .ok r := by
  unfold keepEntry
  split
  · exact ⟨_, rfl⟩
  · next d hfound =>
      have hkey : d.1 = e.1 := by simpa using List.find?_some hfound
      rw [if_pos (h d (List.mem_of_find?_eq_some hfound) hkey)]
      exact ⟨_, rfl⟩

theorem readEntry_ok_iff {row : α} : readEntry conflict read kept row = .ok r ↔
    ∃ e, read row = .ok e ∧ keepEntry conflict kept e = .ok r := by
  unfold readEntry
  cases read row with
  | error exc => simp
  | ok e => simp

theorem readOn_cons_ok_iff {row : α} : readOn conflict read kept (row :: rows) = .ok r ↔
    ∃ kept', readEntry conflict read kept row = .ok kept' ∧
      readOn conflict read kept' rows = .ok r := by
  rw [readOn]
  cases readEntry conflict read kept row with
  | error exc => simp
  | ok kept' => simp

/-- What reading on keeps: what was kept and what the rows say, every key once. -/
theorem readOn_ok (hnodup : (kept.map Prod.fst).Nodup)
    (h : readOn conflict read kept rows = .ok r) :
    (r.map Prod.fst).Nodup ∧ (∀ e, e ∈ r ↔ e ∈ kept ∨ Says read rows e) ∧
      ∀ row ∈ rows, ∃ e, read row = .ok e := by
  induction rows generalizing kept with
  | nil =>
      obtain rfl := Except.ok.inj h
      exact ⟨hnodup, by simp [Says], by simp⟩
  | cons row rows ih =>
      obtain ⟨kept', hrow, hrest⟩ := readOn_cons_ok_iff.mp h
      obtain ⟨d, hd, hkeep⟩ := readEntry_ok_iff.mp hrow
      obtain ⟨hnodup', hmem⟩ := keepEntry_ok hnodup hkeep
      obtain ⟨hr, hsaid, hread⟩ := ih hnodup' hrest
      refine ⟨hr, fun e => ?_, ?_⟩
      · rw [hsaid, hmem]
        have hfirst : Says read (row :: rows) e ↔ e = d ∨ Says read rows e := by
          simp [Says, hd, eq_comm]
        rw [hfirst]
        tauto
      · intro row' hrow'
        rcases List.mem_cons.mp hrow' with rfl | hrow'
        · exact ⟨d, hd⟩
        · exact hread row' hrow'

omit [DecidableEq β] in
/-- Entries with distinct keys are consistent. -/
theorem consistent_of_nodup (hnodup : (r.map Prod.fst).Nodup) : Consistent (· ∈ r) := by
  intro d e hd he hkey
  have hfound := find?_key_eq_some hnodup hd hkey
  rw [find?_key_eq_some hnodup he rfl] at hfound
  rw [Option.some.inj hfound]

/-- What is kept is what was read, every key once. -/
theorem readDistinct_ok (h : readDistinct conflict read rows = .ok r) :
    (r.map Prod.fst).Nodup ∧ (∀ e, e ∈ r ↔ Says read rows e) ∧
      ∀ row ∈ rows, ∃ e, read row = .ok e := by
  obtain ⟨hnodup, hmem, hread⟩ := (readOn_ok List.nodup_nil h : _ ∧ (∀ e, e ∈ r ↔ e ∈ [] ∨ Says read rows e) ∧ _)
  exact ⟨hnodup, by simpa using hmem, hread⟩

theorem readOn_isOk (hnodup : (kept.map Prod.fst).Nodup)
    (hread : ∀ row ∈ rows, ∃ e, read row = .ok e)
    (hconsistent : Consistent fun e => e ∈ kept ∨ Says read rows e) :
    ∃ r, readOn conflict read kept rows = .ok r := by
  induction rows generalizing kept with
  | nil => exact ⟨kept, rfl⟩
  | cons row rows ih =>
      obtain ⟨e, he⟩ := hread row List.mem_cons_self
      have hsaid : Says read (row :: rows) e := ⟨row, List.mem_cons_self, he⟩
      obtain ⟨kept', hkeep⟩ : ∃ kept', keepEntry conflict kept e = .ok kept' :=
        keepEntry_error fun d hd hkey => hconsistent d e (.inl hd) (.inr hsaid) hkey
      obtain ⟨hnodup', hmem⟩ := keepEntry_ok hnodup hkeep
      have hstill : ∀ d, d ∈ kept' ∨ Says read rows d →
          d ∈ kept ∨ Says read (row :: rows) d := by
        rintro d (hd | ⟨row', hrow', hd⟩)
        · rcases (hmem d).mp hd with hd | rfl
          · exact .inl hd
          · exact .inr hsaid
        · exact .inr ⟨row', List.mem_cons_of_mem _ hrow', hd⟩
      obtain ⟨r, hr⟩ := ih hnodup' (fun row' hrow' => hread row' (List.mem_cons_of_mem _ hrow'))
        fun d d' hd hd' => hconsistent d d' (hstill d hd) (hstill d' hd')
      exact ⟨r, readOn_cons_ok_iff.mpr ⟨kept', readEntry_ok_iff.mpr ⟨e, he, hkeep⟩, hr⟩⟩

/-- A list is refused for a row that cannot be read or for a conflict. -/
theorem readDistinct_isOk_iff : (∃ r, readDistinct conflict read rows = .ok r) ↔
    (∀ row ∈ rows, ∃ e, read row = .ok e) ∧ Consistent (Says read rows) := by
  constructor
  · rintro ⟨r, h⟩
    obtain ⟨hnodup, hmem, hread⟩ := readDistinct_ok h
    refine ⟨hread, fun d e hd he => ?_⟩
    exact consistent_of_nodup hnodup d e ((hmem d).mpr hd) ((hmem e).mpr he)
  · rintro ⟨hread, hconsistent⟩
    exact readOn_isOk List.nodup_nil hread (by simpa using hconsistent)

theorem keepEntry_refused {exc : ε} (h : keepEntry conflict kept e = .error exc) :
    exc = conflict := by
  unfold keepEntry at h
  split at h
  · cases h
  · split at h
    · cases h
    · exact (Except.error.inj h).symm

/-- Rows that can all be read are refused for a conflict only. -/
theorem readOn_refused {exc : ε} (hread : ∀ row ∈ rows, ∃ e, read row = .ok e)
    (h : readOn conflict read kept rows = .error exc) : exc = conflict := by
  induction rows generalizing kept with
  | nil => cases h
  | cons row rows ih =>
      obtain ⟨e, he⟩ := hread row List.mem_cons_self
      rw [readOn, readEntry, he] at h
      dsimp only at h
      split at h
      · next exc' hkeep =>
          obtain rfl := Except.error.inj h
          exact keepEntry_refused hkeep
      · exact ih (fun row' hrow' => hread row' (List.mem_cons_of_mem _ hrow')) h

omit [DecidableEq κ] [DecidableEq β] in
theorem says_congr (h : ∀ row, row ∈ rows ↔ row ∈ rows') (e : κ × β) :
    Says read rows e ↔ Says read rows' e := by
  simp only [Says, h]

/-- Rows in another order, or some of them again, give the same entries. -/
theorem readDistinct_congr (h : ∀ row, row ∈ rows ↔ row ∈ rows')
    (hr : readDistinct conflict read rows = .ok r) :
    ∃ r', readDistinct conflict read rows' = .ok r' ∧ r.Perm r' := by
  obtain ⟨hread, hconsistent⟩ := readDistinct_isOk_iff.mp ⟨r, hr⟩
  obtain ⟨r', hr'⟩ : ∃ r', readDistinct conflict read rows' = .ok r' := readDistinct_isOk_iff.mpr
    ⟨fun row hrow => hread row ((h row).mpr hrow), fun d e hd he =>
      hconsistent d e ((says_congr h d).mpr hd) ((says_congr h e).mpr he)⟩
  obtain ⟨hnodup, hmem, -⟩ := readDistinct_ok hr
  obtain ⟨hnodup', hmem', -⟩ := readDistinct_ok hr'
  refine ⟨r', hr', (List.perm_ext_iff_of_nodup hnodup.of_map hnodup'.of_map).mpr fun e => ?_⟩
  rw [hmem, hmem', says_congr h]

end SeoAgent.Verified
