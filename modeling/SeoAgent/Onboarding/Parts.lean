import SeoAgent.Onboarding.SiteEndpoints
import SeoAgent.Verified.Asks

/-!
# What the parts of a request touch

The requests about Google and about sites share their smaller parts: the vault, the
connection of a tenant, the state of a sign-in. Each of them is about a few types of record
and asks the outside for a few things.

## Main results

* one lemma a part: it touches the types and asks for what it needs.
-/

namespace SeoAgent.Onboarding

open SeoAgent.Verified Prog
open Service (iface)

abbrev OnboardingRecords : Type := Repository OnboardingType OnboardingType.Payload

abbrev OnboardingOperation : Type := Service.Op onboardingBackend onboardingOutside

/-- Operations on records of some types, and some operations of the outside. -/
def touches (S : OnboardingType → Prop) (E : OnboardingOp → Prop) : OnboardingOperation → Prop
  | .find t _ => S t
  | .list t => S t
  | .commit ws => ∀ w ∈ ws, S w.target.1
  | .ext x => E x
  | _ => True

@[reducible] def touching (S : OnboardingType → Prop) (E : OnboardingOp → Prop) :
    Contract (iface onboardingBackend onboardingOutside) where
  permits _ o := touches S E o
  trusts _ _ := True

section Parts
variable {S : OnboardingType → Prop} {E : OnboardingOp → Prop}

/-- A part touches only these. -/
abbrev Touches (S : OnboardingType → Prop) (E : OnboardingOp → Prop) {α : Type}
    (p : OnboardingProc α) : Prop := Gives (touching S E) (fun _ => True) p

/-! ## Operations -/

theorem findRecord_touches {t : OnboardingType} {i : String} (h : S t) :
    Touches S E (findRecord t i) :=
  gives_ask (fun _ => h) fun _ _ => trivial

theorem commitOne_touches {w : Repository.Write OnboardingType OnboardingType.Payload}
    (h : S w.target.1) : Touches S E (commitAll [w]) :=
  gives_ask (fun _ _ hw => List.mem_singleton.mp hw ▸ h) fun _ _ => trivial

theorem saveOver_touches {t : OnboardingType} {i : String} {v : t.Payload} (h : S t) :
    Touches S E (saveOver t i v) :=
  gives_bind (findRecord_touches h) fun current _ => commitOne_touches (by
    rw [Service.overWrite_target (B := onboardingBackend)]
    exact h)

theorem readClock_touches : Touches S E readClock :=
  gives_ask (fun _ => trivial) fun _ _ => trivial

theorem makeId_touches : Touches S E makeId := gives_ask (fun _ => trivial) fun _ _ => trivial

theorem askOutside_touches {x : OnboardingOp} (h : E x) : Touches S E (askOutside x) :=
  gives_ask (fun _ => h) fun _ _ => trivial

/-! ## The vault -/

theorem vaultPut_touches {tenantId siteId name value : String} (h : S .siteSecret) :
    Touches S E (vaultPut tenantId siteId name value) := by
  unfold vaultPut
  split
  · exact gives_throw
  · exact gives_bind (saveOver_touches h) fun _ _ => gives_pure trivial

theorem vaultGet_touches {aggregateId : String} (h : S .siteSecret)
    (hunseal : ∀ stored, E (.unseal stored)) : Touches S E (vaultGet aggregateId) := by
  refine gives_bind (findRecord_touches h) fun found _ => ?_
  rcases found with _ | ⟨stored, n⟩
  · exact gives_throw
  · dsimp only
    split
    · exact gives_throw
    · exact askOutside_touches (hunseal stored)

theorem vaultErase_touches {aggregateId : String} (h : S .siteSecret) :
    Touches S E (vaultErase aggregateId) := by
  refine gives_bind (findRecord_touches h) fun found _ => ?_
  rcases found with _ | ⟨stored, n⟩
  · exact gives_pure trivial
  · exact commitOne_touches h

/-! ## The connection of a tenant -/

theorem readConnection_touches {tenantId : String} (h : S .googleConnection) :
    Touches S E (readConnection tenantId) :=
  gives_bind (findRecord_touches h) fun _ _ => gives_pure trivial

theorem connect_touches {tenantId token : String} {email : Option String} {scopes : List String}
    (hsecret : S .siteSecret) (h : S .googleConnection) :
    Touches S E (connect tenantId token email scopes) :=
  gives_bind (vaultPut_touches hsecret) fun _ _ => gives_bind readClock_touches fun _ _ =>
    saveOver_touches h

theorem revokeHeld_touches {key : String} {held : Bool} (h : S .siteSecret)
    (hunseal : ∀ stored, E (.unseal stored)) (hrevoke : ∀ token, E (.revoke token)) :
    Touches S E (revokeHeld key held) := by
  cases held with
  | false => exact gives_pure trivial
  | true =>
      refine gives_bind (gives_tryCatch (vaultGet_touches h hunseal) fun _ => gives_throw)
        fun token _ => ?_
      refine gives_bind (gives_tryCatch (askOutside_touches (hrevoke token)) fun _ => gives_throw)
        fun status _ => ?_
      split
      · exact gives_pure trivial
      · exact gives_throw

theorem oauthDisconnect_touches {tenantId : String} (hsecret : S .siteSecret)
    (h : S .googleConnection) (hunseal : ∀ stored, E (.unseal stored))
    (hrevoke : ∀ token, E (.revoke token)) : Touches S E (oauthDisconnect tenantId) := by
  refine gives_bind (readConnection_touches h) fun found _ => ?_
  cases found with
  | none => exact gives_pure trivial
  | some connection =>
      have hholds : Touches S E (vaultHolds connection.credentialRef.key) :=
        gives_bind (findRecord_touches hsecret) fun _ _ => gives_pure trivial
      refine gives_bind hholds fun held _ => ?_
      refine gives_bind (revokeHeld_touches hsecret hunseal hrevoke) fun revoked _ => ?_
      refine gives_bind (vaultErase_touches hsecret) fun _ _ => ?_
      refine gives_bind readClock_touches fun at_ _ => ?_
      exact gives_bind (saveOver_touches h) fun _ _ => gives_pure trivial

end Parts

end SeoAgent.Onboarding
