import SeoAgent.Verified.Overwrite
import SeoAgent.Verified.Tickets

/-!
# Records that stay shut

A record may say that something is no longer to be done: a key that was revoked, an account
that was suspended. Nobody reads it in the moment they act, so it takes hold of those who read
it from then on. When every commit keeps the record shut, whoever has not read it yet reads it
shut, and an entry that is made on an open reading only is made no more.

## Main results

* `shut_of_run` — a record that is shut stays so, and is read so.
* `entries_after` — no entry that needs it open is made from then on.
-/

namespace SeoAgent.Verified.Service

open Repository Machine

variable {B : Backend} {X : Outside B.Exn} {P : Processes B X} {good : Condition (machine P)}
  {c₁ c : Config (machine P)} {t : B.T} {i : String} {Shut : B.Payload t → Prop}
  {G : P.Kind → Prop}

/-- The record is there, and shut. -/
def IsShut (t : B.T) (i : String) (Shut : B.Payload t → Prop)
    (r : Repository B.T B.Payload) : Prop :=
  ∃ v n, r.current t i = some (v, n) ∧ Shut v

/-- Every reading of the record was of a shut one. -/
def ReadShut (t : B.T) (i : String) (Shut : B.Payload t → Prop) (past : Past B X) : Prop :=
  ∀ v n, (⟨.find t i, .ok (some (v, n))⟩ : (iface B X).Event) ∈ past → Shut v

/-- The record is shut, and was read so by the processes of some kinds. -/
structure ShutFor (t : B.T) (i : String) (Shut : B.Payload t → Prop) (G : P.Kind → Prop)
    (c : Config (machine P)) : Prop where
  current : IsShut t i Shut c.shared.records
  readers : ∀ th ∈ c.pool, G th.kind → ReadShut t i Shut th.past

/-- The commits of a run leave the record shut. -/
def KeepsShut (good : Condition (machine P)) (c₁ : Config (machine P)) (t : B.T) (i : String)
    (Shut : B.Payload t → Prop) : Prop :=
  ∀ {c : Config (machine P)} {j : Nat} {k : P.Kind} {ws : List (Write B.T B.Payload)}
    {f : Except B.Exn Unit → Prog (iface B X) Unit} {past : Past B X}
    {r : Repository B.T B.Payload}, Run good c₁ c →
    c.pool[j]? = some ⟨k, .call (.commit ws) f, past⟩ → IsShut t i Shut c.shared.records →
    c.shared.records.commit ws = .ok r → IsShut t i Shut r

theorem readShut_nil : ReadShut (X := X) t i Shut [] := fun _ _ h => absurd h List.not_mem_nil

/-- One more answer, of a record that is shut. -/
theorem ReadShut.step {w w' : World B X} {o : Op B X} {ch : Choice X} {r : Except B.Exn o.Res}
    {past : Past B X} (h : ReadShut t i Shut past) (hshut : IsShut t i Shut w.records)
    (he : exec w o ch = some (r, w')) : ReadShut (X := X) t i Shut (⟨o, r⟩ :: past) := by
  intro v n hmem
  rcases List.mem_cons.mp hmem with heq | hmem
  · cases heq
    obtain ⟨v', n', hcurrent, hv⟩ := hshut
    obtain ⟨hread, -⟩ := exec_find_ok he
    obtain ⟨rfl, -⟩ := Prod.mk.inj (Option.some.inj (hcurrent.symm.trans hread))
    exact hv
  · exact h v n hmem

/-- A record that is shut stays so, and is read so. -/
theorem shut_of_run (hkeep : KeepsShut good c₁ t i Shut) (h₁ : ShutFor t i Shut G c₁)
    (hr : Run good c₁ c) : ShutFor t i Shut G c := by
  refine Run.invariant (P := ShutFor t i Shut G) h₁ (fun c m c' hc hold _ hf => ?_) hr
  obtain ⟨k, rfl, -, rfl⟩ | ⟨j, ch, k, o, f, past, r, s, rfl, hp, hx, rfl⟩ | ⟨j, rfl, rfl⟩ |
    ⟨e, s, rfl, hs, rfl⟩ := fire_cases hf
  · refine ⟨hold.current, fun th hth hG => ?_⟩
    rcases List.mem_append.mp hth with hth | hth
    · exact hold.readers th hth hG
    · rw [List.mem_singleton.mp hth]
      exact readShut_nil
  · refine ⟨?_, fun th hth hG => ?_⟩
    · show IsShut t i Shut s.records
      rcases exec_records hx with heq | ⟨ws, rfl, hcommit⟩
      · exact heq.symm ▸ hold.current
      · exact hkeep hc hp hold.current hcommit
    · rcases List.mem_or_eq_of_mem_set hth with hth | rfl
      · exact hold.readers th hth hG
      · exact (hold.readers _ (List.mem_of_getElem? hp) hG).step hold.current hx
  · exact ⟨hold.current, fun th hth hG => hold.readers th (List.mem_of_mem_eraseIdx hth) hG⟩
  · obtain ⟨s', -, rfl⟩ := change_cases hs
    exact ⟨hold.current, hold.readers⟩

/-- Entries are made on an open reading of the record, by processes of some kinds. -/
def NeedsOpen {E : Type} (L : Logbook X E) (good : Condition (machine P))
    (c₁ : Config (machine P)) (t : B.T) (i : String) (Shut : B.Payload t → Prop)
    (G : P.Kind → Prop) (Needs : E → Prop) : Prop :=
  ∀ {c : Config (machine P)} {j : Nat} {k : P.Kind} {x : X.Op} {e : E}
    {f : Except B.Exn (X.Res x) → Prog (iface B X) Unit} {past : Past B X}, Run good c₁ c →
    c.pool[j]? = some ⟨k, .call (.ext x) f, past⟩ → IsShut t i Shut c.shared.records →
    L.entry x = some e → Needs e →
    G k ∧ ∃ v n, (⟨.find t i, .ok (some (v, n))⟩ : (iface B X).Event) ∈ past ∧ ¬Shut v

/-- No entry that needs the record open is made from then on. -/
theorem entries_after {E : Type} (L : Logbook X E) {Needs : E → Prop}
    (hkeep : KeepsShut good c₁ t i Shut) (hneeds : NeedsOpen L good c₁ t i Shut G Needs)
    (h₁ : ShutFor t i Shut G c₁) (hr : Run good c₁ c) :
    ∃ more, L.entries c.shared.outside = more ++ L.entries c₁.shared.outside ∧
      ∀ e ∈ more, ¬Needs e := by
  refine Run.invariant (P := fun c : Config (machine P) => ∃ more,
    L.entries c.shared.outside = more ++ L.entries c₁.shared.outside ∧ ∀ e ∈ more, ¬Needs e)
    ⟨[], rfl, fun _ h => absurd h List.not_mem_nil⟩ (fun c m c' hc hold _ hf => ?_) hr
  have hshut := shut_of_run hkeep h₁ hc
  obtain ⟨more, hmore, hnone⟩ := hold
  obtain ⟨k, rfl, -, rfl⟩ | ⟨j, ch, k, o, f, past, r, s, rfl, hp, hx, rfl⟩ | ⟨j, rfl, rfl⟩ |
    ⟨e, s, rfl, hs, rfl⟩ := fire_cases hf
  · exact ⟨more, hmore, hnone⟩
  · rcases L.step hx with hsame | ⟨x, e, rfl, hentry, hadd⟩
    · exact ⟨more, hsame.trans hmore, hnone⟩
    · refine ⟨e :: more, hadd.trans (congrArg (e :: ·) hmore), fun e' he' => ?_⟩
      rcases List.mem_cons.mp he' with rfl | he'
      · intro hopen
        obtain ⟨hG, v, n, hmem, hnot⟩ := hneeds hc hp hshut.current hentry hopen
        exact hnot (hshut.readers _ (List.mem_of_getElem? hp) hG v n hmem)
      · exact hnone e' he'
  · exact ⟨more, hmore, hnone⟩
  · obtain ⟨s', hchange, rfl⟩ := change_cases hs
    exact ⟨more, (L.change hchange).trans hmore, hnone⟩

end SeoAgent.Verified.Service
