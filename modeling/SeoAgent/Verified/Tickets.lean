import SeoAgent.Verified.Requests

/-!
# Outside operations that follow a write

No two processes write the same version of a record, so a process that has just written
one holds a ticket nobody else gets. When every outside operation of some kind is made
only as the operation after such a write, no ticket is used for two of them, whatever
the interleaving, and what the writer knew of the record holds of its stored versions.

The operations in question are the ones the outside keeps a log of (`Logbook`).

## Main results

* `ticket_once` — who has used a ticket was the last to hold it.
* `tickets_nodup` — no ticket is used twice.
* `entries_backed` — what a process knows when it makes an entry stays true of it.
-/

namespace SeoAgent.Verified.Service

open Repository Machine

variable {B : Backend} {X : Outside B.Exn}

/-! ## Tickets -/

/-- A version of a record. -/
abbrev Ticket (B : Backend) : Type := B.T × String × Nat

/-- The version a process wrote with its last operation. -/
def justWrote : Past B X → Option (Ticket B)
  | ⟨.commit [.create t i _], .ok _⟩ :: _ => some (t, i, 1)
  | ⟨.commit [.replace t i _ n], .ok _⟩ :: _ => some (t, i, n + 1)
  | _ => none

/-- What a process just wrote is the next version of its record. -/
theorem justWrote_step {w w' : World B X} {o : Op B X} {ch : Choice X}
    {r : Except B.Exn o.Res} {past : Past B X} {ticket : Ticket B}
    (he : exec w o ch = some (r, w'))
    (h : justWrote (⟨o, r⟩ :: past) = some ticket) :
    ticket.2.2 = (w.records.versions ticket.1 ticket.2.1).length + 1 ∧
      (w'.records.versions ticket.1 ticket.2.1).length = ticket.2.2 ∧
      w'.outside = w.outside := by
  unfold justWrote at h
  split at h
  case h_1 t i v u rest heq =>
    cases heq
    cases h
    obtain ⟨hc, hout⟩ := exec_commit_ok he
    obtain ⟨hfresh, hafter⟩ := apply_create (commit_singleton.mp hc)
    rw [hafter, versions_append_self, hfresh]
    exact ⟨rfl, rfl, hout⟩
  case h_2 t i v n u rest heq =>
    cases heq
    cases h
    obtain ⟨hc, hout⟩ := exec_commit_ok he
    obtain ⟨hlen, hafter⟩ := apply_replace (commit_singleton.mp hc)
    rw [hafter, versions_append_self, List.length_append, hlen]
    exact ⟨rfl, rfl, hout⟩
  case h_3 => cases h

section Holders
variable {P : Processes B X} {good : Condition (machine P)} {w₀ : World B X}
  {c c' : Config (machine P)} {ticket : Ticket B}

/-- What a process just wrote is there, and no two processes just wrote the same version. -/
structure HoldersApart (c : Config (machine P)) : Prop where
  stored : ∀ th ∈ c.pool, ∀ mine, justWrote th.past = some mine →
    mine.2.2 ≤ (c.shared.records.versions mine.1 mine.2.1).length
  apart : ∀ {t t' : Nat} {th th' : Thread (machine P)}, t ≠ t' → c.pool[t]? = some th →
    c.pool[t']? = some th' → ∀ mine, justWrote th.past = some mine → justWrote th'.past ≠ some mine

theorem holders_apart (hr : Run good ⟨w₀, []⟩ c) : HoldersApart c := by
  let D : Discipline (machine P) :=
    { inv := fun _ => True
      knows := fun _ w past => ∀ mine, justWrote past = some mine →
        mine.2.2 ≤ (w.records.versions mine.1 mine.2.1).length
      contract := fun _ => .any _
      coexist := fun _ past _ past' =>
        ∀ mine, justWrote past = some mine → justWrote past' ≠ some mine }
  have hS : D.Sound good ⟨w₀, []⟩ :=
    { symm := fun h mine hmine hother => h mine hother hmine
      admits := fun _ _ _ _ _ _ h => by cases h
      body := fun _ => Prog.wp_anything _
      start := fun _ _ _ h => by cases h
      trusted := fun _ => trivial
      inv := fun _ => trivial
      own := fun ha mine hmine => (justWrote_step ha.exec hmine).2.1.ge
      frame := fun ha _ _ _ hknows mine hmine =>
        (hknows mine hmine).trans (exec_grows ha.exec mine.1 mine.2.1).length_le
      together := fun {c t ch k o f past r s} ha th _ _ hknows mine hmine hother => by
        have hnext := (justWrote_step ha.exec hmine).1
        have hthere : mine.2.2 ≤ (c.shared.records.versions mine.1 mine.2.1).length :=
          hknows mine hother
        omega
      envInv := fun _ _ _ _ => trivial
      envFrame := fun _ _ _ hs _ _ hknows => by
        obtain ⟨s, -, rfl⟩ := change_cases hs
        exact hknows }
  have hholds := hS.sound (.of_no_process trivial) hr
  exact ⟨fun th hth => (hholds.threads th hth).knows,
    fun hne hp hp' => hholds.coexist_of_ne hS.symm hne hp hp'⟩

/-- A ticket that was given away and that nobody holds is held by nobody later. -/
theorem ticket_gone
    (hle : ticket.2.2 ≤ (c.shared.records.versions ticket.1 ticket.2.1).length)
    (hnone : ∀ th ∈ c.pool, justWrote th.past ≠ some ticket) (hr : Run good c c') :
    ∀ th ∈ c'.pool, justWrote th.past ≠ some ticket := by
  refine Run.invariant (P := fun c' => ∀ th ∈ c'.pool, justWrote th.past ≠ some ticket) hnone
    (fun c₁ m c₂ hr₁ hold _ hf => ?_) hr
  obtain ⟨k, rfl, -, rfl⟩ | ⟨t, ch, k, o, f, past, r, s, rfl, -, hx, rfl⟩ | ⟨t, rfl, rfl⟩ |
    ⟨e, s, rfl, -, rfl⟩ := fire_cases hf
  · intro th hth
    rcases List.mem_append.mp hth with hth | hth
    · exact hold th hth
    · rw [List.mem_singleton.mp hth]
      exact fun h => by cases h
  · intro th hth hmine
    rcases List.mem_or_eq_of_mem_set hth with hth | rfl
    · exact hold th hth hmine
    · have hnext := (justWrote_step hx hmine).1
      have hgrown := (grows_of_run hr₁ ticket.1 ticket.2.1).length_le
      omega
  · exact fun th hth => hold th (List.mem_of_mem_eraseIdx hth)
  · exact hold

/-- After a process has used the ticket it held, nobody holds it again. -/
theorem ticket_once {t : Nat} {ch : Choice X} {th : Thread (machine P)}
    (hr : Run good ⟨w₀, []⟩ c) (here : c.pool[t]? = some th)
    (hmine : justWrote th.past = some ticket) (hf : fire c (.act t ch) = some c')
    {good' : Condition (machine P)} {c'' : Config (machine P)} (hr' : Run good' c' c'') :
    ∀ th ∈ c''.pool, justWrote th.past ≠ some ticket := by
  have hapart := holders_apart hr
  have hstored := hapart.stored th (List.mem_of_getElem? here) ticket hmine
  obtain ⟨k, o, f, past, r, s, hp, hx, rfl⟩ := fire_act hf
  obtain rfl := Option.some.inj (here.symm.trans hp)
  have hgrows := exec_grows hx ticket.1 ticket.2.1
  refine ticket_gone (hstored.trans hgrows.length_le) (fun th' hth' hother => ?_) hr'
  obtain ⟨t', ht'⟩ := List.mem_iff_getElem?.mp hth'
  by_cases hne : t = t'
  · subst hne
    have hset : (c.pool.set t ⟨k, f r, ⟨o, r⟩ :: past⟩)[t]? = some ⟨k, f r, ⟨o, r⟩ :: past⟩ :=
      List.getElem?_set_self (List.getElem?_eq_some_iff.mp hp).1
    obtain rfl := Option.some.inj (ht'.symm.trans hset)
    have hnext := (justWrote_step hx hother).1
    omega
  · have hkept : c.pool[t']? = some th' := by
      rw [← List.getElem?_set_ne hne]
      exact ht'
    exact hapart.apart hne hp hkept ticket hmine hother

end Holders

/-! ## Logs -/

/-- A log of some operations of the outside. -/
structure Logbook (X : Outside B.Exn) (E : Type) where
  entries : X.State → List E
  entry : X.Op → Option E
  exec : ∀ {s x ch r s'}, X.exec s x ch = some (r, s') →
    entries s' = entries s ∨ ∃ e, entry x = some e ∧ entries s' = e :: entries s
  change : ∀ {s e s'}, X.change s e = some s' → entries s' = entries s

variable {P : Processes B X} {E : Type}

/-- What one operation of a process adds to a log. -/
theorem Logbook.step (L : Logbook X E) {w w' : World B X} {o : Op B X} {ch : Choice X}
    {r : Except B.Exn o.Res} (he : Service.exec w o ch = some (r, w')) :
    L.entries w'.outside = L.entries w.outside ∨
      ∃ x e, o = .ext x ∧ L.entry x = some e ∧
        L.entries w'.outside = e :: L.entries w.outside := by
  rcases exec_outside he with hsame | ⟨x, c, rfl, -, -⟩
  · exact .inl (congrArg L.entries hsame)
  · obtain ⟨c, -, hex, -⟩ := exec_ext he
    rcases L.exec hex with hsame | ⟨e, hentry, hadd⟩
    · exact .inl hsame
    · exact .inr ⟨x, e, rfl, hentry, hadd⟩

section Runs
variable {T : Terms P} {good : Condition (machine P)} {w₀ : World B X}
  {c : Config (machine P)} (L : Logbook X E) {ticket : E → Ticket B}

/-- Entries are made by the operation after the write of their ticket. -/
def Ticketed (T : Terms P) (L : Logbook X E) (ticket : E → Ticket B) : Prop :=
  ∀ {k past x e}, T.permits k past (.ext x) → L.entry x = some e →
    justWrote past = some (ticket e)

/-- Used tickets are versions that are there, each used once. -/
structure UsedOnce (ticket : E → Ticket B) (w : World B X) : Prop where
  nodup : ((L.entries w.outside).map ticket).Nodup
  stored : ∀ e ∈ L.entries w.outside,
    (ticket e).2.2 ≤ (w.records.versions (ticket e).1 (ticket e).2.1).length

/-- A ticket a process may use next: nobody has used it. -/
def Unused (ticket : E → Ticket B) (w : World B X) (past : Past B X) : Prop :=
  ∀ mine, justWrote past = some mine → mine ∉ (L.entries w.outside).map ticket ∧
    mine.2.2 ≤ (w.records.versions mine.1 mine.2.1).length

/-- No ticket is used for two entries. -/
theorem tickets_nodup (hT : T.Kept) (hV : AllValid T.Valid w₀.records)
    (hticket : Ticketed T L ticket) (h₀ : L.entries w₀.outside = [])
    (hr : Run good ⟨w₀, []⟩ c) : ((L.entries c.shared.outside).map ticket).Nodup := by
  let D : Discipline (machine P) :=
    { inv := UsedOnce L ticket
      knows := fun _ w past => Unused L ticket w past
      contract := T.contract
      coexist := fun _ past _ past' =>
        ∀ mine, justWrote past = some mine → justWrote past' ≠ some mine }
  have hlength : ∀ {w w' : World B X} {o : Op B X} {ch : Choice X} {r : Except B.Exn o.Res},
      Service.exec w o ch = some (r, w') → ∀ t i,
        (w.records.versions t i).length ≤ (w'.records.versions t i).length :=
    fun he t i => (exec_grows he t i).length_le
  have hS : D.Sound good ⟨w₀, []⟩ :=
    { symm := fun h mine hmine hother => h mine hother hmine
      admits := fun _ _ _ _ _ _ h => by cases h
      body := hT
      start := fun _ _ _ h => by cases h
      trusted := fun ha => (valid_of_run hT hV ha.reached).reads ha.exec
      inv := fun {c t ch k o f past r s} ha => by
        have hstored : ∀ e ∈ L.entries c.shared.outside, (ticket e).2.2 ≤
            (s.records.versions (ticket e).1 (ticket e).2.1).length :=
          fun e he => (ha.holds.inv.stored e he).trans (hlength ha.exec _ _)
        rcases L.step ha.exec with hsame | ⟨x, e, rfl, hentry, hadd⟩
        · refine ⟨?_, ?_⟩
          · rw [hsame]
            exact ha.holds.inv.nodup
          · rw [hsame]
            exact hstored
        · obtain ⟨hunused, hthere⟩ := ha.knows (ticket e) (hticket ha.permitted.1 hentry)
          refine ⟨?_, ?_⟩
          · rw [hadd, List.map_cons]
            exact List.nodup_cons.mpr ⟨hunused, ha.holds.inv.nodup⟩
          · rw [hadd]
            intro e' he'
            rcases List.mem_cons.mp he' with rfl | he'
            · exact hthere.trans (hlength ha.exec _ _)
            · exact hstored e' he'
      own := fun {c t ch k o f past r s} ha mine hmine => by
        obtain ⟨hnext, hlast, hout⟩ := justWrote_step ha.exec hmine
        refine ⟨fun hused => ?_, hlast.ge⟩
        rw [hout] at hused
        obtain ⟨e, he, rfl⟩ := List.mem_map.mp hused
        have hold := ha.holds.inv.stored e he
        omega
      frame := fun {c t ch k o f past r s} ha th _ hco hknows mine hmine => by
        obtain ⟨hunused, hthere⟩ := hknows mine hmine
        refine ⟨?_, hthere.trans (hlength ha.exec _ _)⟩
        rcases L.step ha.exec with hsame | ⟨x, e, rfl, hentry, hadd⟩
        · rw [hsame]
          exact hunused
        · rw [hadd, List.map_cons]
          intro hused
          rcases List.mem_cons.mp hused with heq | hused
          · exact hco (ticket e) (hticket ha.permitted.1 hentry) (hmine.trans (congrArg some heq))
          · exact hunused hused
      together := fun {c t ch k o f past r s} ha th _ _ hknows mine hmine hother => by
        obtain ⟨hnext, -, -⟩ := justWrote_step ha.exec hmine
        have hthere := (hknows mine hother).2
        have hfound : mine.2.2 ≤ (c.shared.records.versions mine.1 mine.2.1).length := hthere
        omega
      envInv := fun _ hh _ hs => by
        obtain ⟨s, hchange, rfl⟩ := change_cases hs
        have hlog := L.change hchange
        refine ⟨?_, ?_⟩
        · show ((L.entries s).map ticket).Nodup
          rw [hlog]
          exact hh.inv.nodup
        · show ∀ e ∈ L.entries s, _
          rw [hlog]
          exact hh.inv.stored
      envFrame := fun _ _ _ hs _ _ hknows mine hmine => by
        obtain ⟨s, hchange, rfl⟩ := change_cases hs
        refine ⟨?_, (hknows mine hmine).2⟩
        show mine ∉ (L.entries s).map ticket
        rw [L.change hchange]
        exact (hknows mine hmine).1 }
  have hempty : D.inv w₀ := by
    refine ⟨?_, ?_⟩
    · rw [h₀]
      exact List.nodup_nil
    · rw [h₀]
      exact fun _ h => absurd h List.not_mem_nil
  exact (hS.sound (.of_no_process hempty) hr).inv.nodup

/-- What holds of the repository for an entry when a process makes it, and is not lost
as versions are added, holds of every entry. -/
theorem entries_backed {F : Repository B.T B.Payload → E → Prop} (hT : T.Kept)
    (hV : AllValid T.Valid w₀.records) (hmono : ∀ {r s e}, r.Grows s → F r e → F s e)
    (hF : ∀ {r k past x e}, Told r past → T.permits k past (.ext x) → L.entry x = some e →
      F r e)
    (h₀ : L.entries w₀.outside = []) (hr : Run good ⟨w₀, []⟩ c) :
    ∀ e ∈ L.entries c.shared.outside, F c.shared.records e := by
  let D : Discipline (machine P) :=
    { inv := fun w => ∀ e ∈ L.entries w.outside, F w.records e
      knows := fun _ _ _ => True
      contract := T.contract
      coexist := fun _ _ _ _ => True }
  have hS : D.Sound good ⟨w₀, []⟩ :=
    { symm := fun _ => trivial
      admits := fun _ _ _ _ => trivial
      body := hT
      start := fun _ _ => trivial
      trusted := fun ha => (valid_of_run hT hV ha.reached).reads ha.exec
      inv := fun {c t ch k o f past r s} ha => by
        have hgrows := exec_grows ha.exec
        rcases L.step ha.exec with hsame | ⟨x, e, rfl, hentry, hadd⟩
        · show ∀ e ∈ L.entries s.outside, _
          rw [hsame]
          exact fun e he => hmono hgrows (ha.holds.inv e he)
        · show ∀ e ∈ L.entries s.outside, _
          rw [hadd]
          intro e' he'
          rcases List.mem_cons.mp he' with rfl | he'
          · exact hmono hgrows (hF (told_of_run ha.reached _ (List.mem_of_getElem? ha.here))
              ha.permitted.1 hentry)
          · exact hmono hgrows (ha.holds.inv e' he')
      own := fun _ => trivial
      frame := fun _ _ _ _ _ => trivial
      together := fun _ _ _ _ _ => trivial
      envInv := fun _ hh _ hs => by
        obtain ⟨s, hchange, rfl⟩ := change_cases hs
        show ∀ e ∈ L.entries s, _
        rw [L.change hchange]
        exact hh.inv
      envFrame := fun _ _ _ _ _ _ _ => trivial }
  have hempty : D.inv w₀ := by
    show ∀ e ∈ L.entries w₀.outside, _
    rw [h₀]
    exact fun _ h => absurd h List.not_mem_nil
  exact (hS.sound (.of_no_process hempty) hr).inv

end Runs

end SeoAgent.Verified.Service
