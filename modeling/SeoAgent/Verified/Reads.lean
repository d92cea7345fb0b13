import SeoAgent.Verified.Requests

/-!
# Invariants of what was read

A process that reads one record and then another has read neither as it is now. But the
state it read the second one in was reached, so every invariant held there, and the
first record had at least the version that was read. `Witnessed` keeps these states, and
`witnessed_invariant` is the rule of `repository_invariant` with them at hand.

## Main results

* `witnessed_invariant` — an invariant of the repository, kept by commits of processes
  whose reads were made in states that had it.
-/

namespace SeoAgent.Verified.Service

open Repository Machine

variable {B : Backend} {X : Outside B.Exn} {K : Repository B.T B.Payload → Prop}

/-- The record a read was answered with is the current one. -/
def IsCurrent (r : Repository B.T B.Payload) : (iface B X).Event → Prop
  | ⟨.find t i, .ok x⟩ => r.current t i = x
  | _ => True

/-- Every answer came in a state that had the invariant and grew since. -/
def Witnessed (K : Repository B.T B.Payload → Prop) (r : Repository B.T B.Payload)
    (past : Past B X) : Prop :=
  ∀ ev rest, ev :: rest <:+ past →
    ∃ r', K r' ∧ r'.Grows r ∧ Told r' (ev :: rest) ∧ IsCurrent r' ev

theorem witnessed_nil (r : Repository B.T B.Payload) : Witnessed (X := X) K r [] :=
  fun _ _ h => nomatch List.suffix_nil.mp h

theorem Witnessed.mono {r s : Repository B.T B.Payload} {past : Past B X}
    (h : Witnessed K r past) (hg : r.Grows s) : Witnessed K s past := by
  intro ev rest hsuffix
  obtain ⟨r', hK, hgrows, htold, hcurrent⟩ := h ev rest hsuffix
  exact ⟨r', hK, hgrows.trans hg, htold, hcurrent⟩

theorem isCurrent_exec {w w' : World B X} {o : Op B X} {ch : Choice X}
    {r : Except B.Exn o.Res} (he : exec w o ch = some (r, w')) :
    IsCurrent w'.records (⟨o, r⟩ : (iface B X).Event) := by
  cases o with
  | find t i =>
      cases r with
      | ok x =>
          obtain ⟨hx, rfl⟩ := exec_find_ok he
          exact hx
      | error e => trivial
  | list t => trivial
  | commit ws => trivial
  | now => trivial
  | newId => trivial
  | ext x => trivial

theorem Witnessed.step {w w' : World B X} {past : Past B X} {o : Op B X} {ch : Choice X}
    {r : Except B.Exn o.Res} (h : Witnessed K w.records past) (htold : Told w.records past)
    (hK : K w'.records) (he : exec w o ch = some (r, w')) :
    Witnessed (X := X) K w'.records (⟨o, r⟩ :: past) := by
  intro ev rest hsuffix
  rcases List.suffix_cons_iff.mp hsuffix with heq | hsuffix
  · obtain ⟨rfl, rfl⟩ := List.cons.inj heq
    exact ⟨w'.records, hK, Grows.refl _, htold.step he, isCurrent_exec he⟩
  · exact h.mono (exec_grows he) ev rest hsuffix

section Runs
variable {P : Processes B X} {T : Terms P} {good : Condition (machine P)} {w₀ : World B X}
  {c : Config (machine P)}

/-- An invariant of the repository, from what one permitted commit keeps; what its
process read, it read in states that had the invariant. -/
theorem witnessed_invariant (hT : T.Kept) (hV : AllValid T.Valid w₀.records)
    (hstep : ∀ {c ch k past ws r}, Committing T good w₀ c ch k past ws →
      Witnessed K c.shared.records past → K c.shared.records →
      c.shared.records.commit ws = .ok r → K r)
    (h₀ : K w₀.records) (hr : Run good ⟨w₀, []⟩ c) : K c.shared.records := by
  let D : Discipline (machine P) :=
    { inv := fun w => K w.records
      knows := fun _ w past => Witnessed K w.records past
      contract := T.contract
      coexist := fun _ _ _ _ => True }
  have hinv : ∀ {c t ch k o f past r s},
      D.Acting good ⟨w₀, []⟩ c t ch k o f past r s → K s.records := by
    intro c t ch k o f past r s ha
    rcases exec_records ha.exec with he | ⟨ws, rfl, hc⟩
    · have hsame : K s.records ↔ K c.shared.records := by rw [he]
      exact hsame.mpr ha.holds.inv
    · have hcom : Committing T good w₀ c ch k past ws :=
        { reached := ha.reached
          told := told_of_run ha.reached _ (List.mem_of_getElem? ha.here)
          valid := valid_of_run hT hV ha.reached
          ok := ⟨t, ha.ok, f, ha.here⟩
          permitted := ha.permitted.1
          writes := ha.permitted.2 }
      exact hstep hcom ha.knows ha.holds.inv hc
  have hS : D.Sound good ⟨w₀, []⟩ :=
    { symm := fun _ => trivial
      admits := fun _ _ _ _ => trivial
      body := hT
      start := fun _ _ => witnessed_nil _
      trusted := fun ha => (valid_of_run hT hV ha.reached).reads ha.exec
      inv := hinv
      own := fun ha => ha.knows.step
        (told_of_run ha.reached _ (List.mem_of_getElem? ha.here)) (hinv ha) ha.exec
      frame := fun ha _ _ _ hknows => hknows.mono (exec_grows ha.exec)
      together := fun _ _ _ _ _ => trivial
      envInv := fun _ hh _ hs => by
        obtain ⟨s, -, rfl⟩ := change_cases hs
        exact hh.inv
      envFrame := fun _ _ _ hs _ _ hknows => by
        obtain ⟨s, -, rfl⟩ := change_cases hs
        exact hknows }
  exact (hS.sound (.of_no_process h₀) hr).inv

end Runs

end SeoAgent.Verified.Service
