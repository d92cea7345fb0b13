import SeoAgent.Net.Guard
import SeoAgent.Verified.Json

/-!
# Sites and their Search Console properties

The site record (`app/models/sites.py`) and the rules about which property a site may
have (`app/onboarding/ownership.py`). A property is stored with the white space at its
ends removed, after it was compared with the site as it was sent.

## Main results

* `propertyMatchesSite_validated` — the stored spelling matches the site when the one
  that was sent did.
-/

namespace SeoAgent.Onboarding

open SeoAgent.Verified Url
open SeoAgent.Net (bare bareHost withoutWww)

/-! ## Sites -/

inductive SiteStatus
  | active
  | paused
  | error
  | removed
  deriving DecidableEq, Repr

inductive SecretProvider
  | environment
  | database
  deriving DecidableEq, Repr

structure SecretRef where
  provider : SecretProvider := .environment
  key : String
  deriving DecidableEq, Repr

/-- A URL as `HttpUrl` writes it: nothing in it is white space. -/
structure HttpUrl where
  text : String
  plain : ¬HasSpace text.toList
  deriving DecidableEq

/-- `GSCConnectionConfig`. -/
structure GSCConnectionConfig where
  propertyUrl : String
  credentialRef : SecretRef
  authMode : String := "access_token"
  rowLimit : Nat := 25000
  deriving DecidableEq, Repr

/-- `SiteAdapterConnection`. -/
structure SiteAdapterConnection where
  adapterType : String
  config : Dict
  secretRefs : List (String × SecretRef)
  deriving DecidableEq

/-- A site; times in microseconds. -/
structure Site where
  siteId : String
  principalId : String
  name : String
  baseUrl : HttpUrl
  status : SiteStatus := .active
  gsc : Option GSCConnectionConfig := none
  siteAdapter : Option SiteAdapterConnection := none
  verificationToken : Option String := none
  ownershipMethod : Option String := none
  ownershipVerifiedAt : Option Int := none
  createdAt : Int
  updatedAt : Int
  deriving DecidableEq

/-! ## Properties -/

def domainPropertyPrefix : String := "sc-domain:"

/-- `validate_property_url`: the spelling that is stored. -/
def validatePropertyUrl (value : String) : Except String String :=
  let stripped := Text.strip value
  if stripped = "" then .error "A Search Console property is required."
  else
    match Text.dropPrefix? domainPropertyPrefix stripped with
    | some host =>
        if host = "" ∨ '/' ∈ host.toList ∨ ':' ∈ host.toList ∨ host ≠ Text.strip host then
          .error ("A domain property looks like 'sc-domain:example.com' — " ++
            s!"no scheme and no path. Got: {stripped}")
        else .ok stripped
    | none =>
        if (Text.dropPrefix? "http://" stripped).isSome ∨
            (Text.dropPrefix? "https://" stripped).isSome then .ok stripped
        else
          .error ("A Search Console property is either a URL prefix " ++
            "('https://example.com/') or a domain property " ++
            s!"('sc-domain:example.com'). Got: {stripped}")

/-- An environment credential is the operator's, and so every tenant's. -/
def credentialIsShared (reference : SecretRef) : Bool := reference.provider = .environment

section Properties
variable (U : Unicode)

/-- The domain of a domain property. -/
def domainOf (host : String) : List Char := rstripDots (U.lower host.toList)

/-- `property_matches_site`; `none` for a `ValueError`. -/
def propertyMatchesSite (propertyUrl siteUrl : String) : Option Bool :=
  (bare U siteUrl.toList).bind fun siteHost =>
    if siteHost = [] then some false
    else
      match Text.dropPrefix? domainPropertyPrefix propertyUrl with
      | some host => some (domainOf U host == siteHost)
      | none => (bare U propertyUrl.toList).map (· == siteHost)

/-- `property_covers_site`; `none` for a `ValueError`. -/
def propertyCoversSite (propertyUrl siteUrl : String) : Option Bool :=
  (propertyMatchesSite U propertyUrl siteUrl).bind fun fits =>
    if fits then some true
    else
      match Text.dropPrefix? domainPropertyPrefix propertyUrl with
      | none => some false
      | some host =>
          (urlsplit U siteUrl.toList).map fun parsed =>
            let siteHost := rstripDots (U.lower ((hostname U parsed.netloc).getD []))
            domainOf U host ≠ [] && ('.' :: domainOf U host).isSuffixOf siteHost

/-- `site_may_read_search_console`; `none` for a `ValueError`. -/
def siteMayReadSearchConsole (site : Site) : Option Bool :=
  match site.gsc with
  | none => some false
  | some gsc =>
      if site.status ≠ .active then some false
      else if credentialIsShared gsc.credentialRef then
        if site.ownershipVerifiedAt = none then some false
        else propertyMatchesSite U gsc.propertyUrl site.baseUrl.text
      else propertyCoversSite U gsc.propertyUrl site.baseUrl.text

end Properties

/-! ## The stored spelling -/

section Stored
variable {U : Unicode} {ws netloc : List Char}

theorem hasSpace_withoutWww {host : List Char} (h : HasSpace host) :
    HasSpace (withoutWww host) := by
  unfold withoutWww
  split
  · next hwww =>
      obtain ⟨rest, rfl⟩ := List.isPrefixOf_iff_prefix.mp hwww
      obtain ⟨c, hc, hspace⟩ := h
      rcases List.mem_append.mp hc with hc | hc
      · have hplain : ∀ c ∈ "www.".toList, Text.isSpace c = false := by simp [Text.isSpace]
        rw [hplain c hc] at hspace
        cases hspace
      · exact ⟨c, hc, hspace⟩
  · exact h

/-- White space after a netloc leaves its host as it was, or is in it. -/
theorem bareHost_append (netloc : List Char) (hws : ∀ c ∈ ws, Text.isSpace c = true) :
    bareHost U (netloc ++ ws) = bareHost U netloc ∨ HasSpace (bareHost U (netloc ++ ws)) := by
  have hsame : (hostPort (netloc ++ ws)).1 = (hostPort netloc).1 →
      bareHost U (netloc ++ ws) = bareHost U netloc := fun h => by
    unfold bareHost hostname
    rw [h]
  rcases hostPort_append netloc hws with h | h
  · exact .inl (hsame h)
  · cases ws with
    | nil => exact .inl (hsame (h.trans (List.append_nil _)))
    | cons c cs =>
        have hspace : HasSpace (hostPort (netloc ++ c :: cs)).1 := by
          rw [h]
          exact ⟨c, List.mem_append_right _ List.mem_cons_self, hws c List.mem_cons_self⟩
        refine .inr (hasSpace_withoutWww (hasSpace_rstripDots (U.lower_space.mpr ?_)))
        cases hhost : hostname U (netloc ++ c :: cs) with
        | none =>
            unfold hostname at hhost
            split at hhost
            · next hnil =>
                obtain ⟨d, hd, -⟩ := hspace
                rw [hnil] at hd
                exact absurd hd List.not_mem_nil
            · cases hhost
        | some host => exact hasSpace_hostname hspace hhost

theorem bareHost_nil : bareHost U [] = [] := by
  have hnone : hostname U [] = none := rfl
  unfold bareHost
  rw [hnone, Option.getD_none, U.lower_nil]
  rfl

/-- The netloc after the slashes of a URL. -/
theorem splitNetloc_http {pre rest : List Char}
    (hpre : pre = "http://".toList ∨ pre = "https://".toList) :
    splitNetloc (splitScheme (pre ++ rest)).2 = rest.takeWhile (!endsNetloc ·) := by
  rcases hpre with rfl | rfl <;> rfl

theorem splitNetloc_domain {rest : List Char} (h : '/' ∉ rest) :
    splitNetloc (splitScheme (domainPropertyPrefix.toList ++ rest)).2 = [] := by
  have hrest : (splitScheme (domainPropertyPrefix.toList ++ rest)).2 = rest := rfl
  rw [hrest]
  unfold splitNetloc
  split
  · exact absurd List.mem_cons_self h
  · rfl

/-- The host of a web property does not change when white space around it is removed,
unless it has some itself. -/
theorem bare_of_stripped {before pre rest after host : List Char}
    (hpre : pre = "http://".toList ∨ pre = "https://".toList)
    (hbefore : ∀ c ∈ before, Text.isSpace c = true) (hafter : ∀ c ∈ after, Text.isSpace c = true)
    (hne : host ≠ []) (hplain : ¬HasSpace host)
    (h : bare U (before ++ (pre ++ rest) ++ after) = some host) :
    bare U (pre ++ rest) = some host := by
  obtain ⟨a, v, ha, hav⟩ : ∃ a v, isC0OrSpace a = false ∧ pre ++ rest = a :: v := by
    rcases hpre with rfl | rfl <;> exact ⟨'h', _, by decide, rfl⟩
  have hclean : cleaned (pre ++ rest) = pre ++ rest.filter (!isUnsafe ·) := by
    rcases hpre with rfl | rfl <;> rfl
  obtain ⟨parsed, hparsed, hhost⟩ := Option.map_eq_some_iff.mp h
  unfold urlsplit at hparsed
  split at hparsed
  case isFalse => cases hparsed
  case isTrue hallowed =>
  obtain rfl := Option.some.inj hparsed
  have hspaces := cleaned_space (v := v) after hbefore ha
  rw [← hav] at hspaces
  rcases hspaces with hsame | ⟨c, tail, hc, hclean'⟩
  · -- The netloc as it was sent ends where the stored one does, or in white space.
    have hws : ∀ c ∈ after.filter (!isUnsafe ·), Text.isSpace c = true := fun c hc =>
      hafter c (List.mem_filter.mp hc).1
    have hnetloc : netlocOf (pre ++ rest) = (rest.filter (!isUnsafe ·)).takeWhile (!endsNetloc ·) := by
      unfold netlocOf
      rw [hclean, splitNetloc_http hpre]
    have hsent : ∃ ws, (∀ c ∈ ws, Text.isSpace c = true) ∧
        netlocOf (before ++ (pre ++ rest) ++ after) = netlocOf (pre ++ rest) ++ ws := by
      have hsent' : netlocOf (before ++ (pre ++ rest) ++ after) =
          (rest.filter (!isUnsafe ·) ++ after.filter (!isUnsafe ·)).takeWhile (!endsNetloc ·) := by
        unfold netlocOf
        rw [hsame, hclean, List.append_assoc, splitNetloc_http hpre]
      rw [hsent', hnetloc, List.takeWhile_append]
      split
      · next hall =>
          refine ⟨(after.filter (!isUnsafe ·)).takeWhile (!endsNetloc ·), fun c hc =>
            hws c ((List.takeWhile_sublist _).subset hc), ?_⟩
          rw [(List.takeWhile_prefix _).eq_of_length hall]
      · exact ⟨[], fun _ hc => absurd hc List.not_mem_nil, (List.append_nil _).symm⟩
    obtain ⟨ws, hspace, heq⟩ := hsent
    rw [heq] at hallowed hhost
    have hallowed' := U.allowed_append hspace hallowed
    unfold bare urlsplit
    rw [if_pos hallowed', Option.map_some]
    rcases bareHost_append (U := U) (netlocOf (pre ++ rest)) hspace with hsamehost | hspaced
    · exact congrArg some (hsamehost.symm.trans hhost)
    · exact absurd (hhost ▸ hspaced) hplain
  · rw [netlocOf_of_space hc hclean', bareHost_nil] at hhost
    exact absurd hhost.symm hne

/-- A domain property with white space around it has no host. -/
theorem bare_of_domain {before rest after host : List Char} (hslash : '/' ∉ rest)
    (hbefore : ∀ c ∈ before, Text.isSpace c = true) (hafter : ∀ c ∈ after, Text.isSpace c = true)
    (h : bare U (before ++ (domainPropertyPrefix.toList ++ rest) ++ after) = some host) :
    host = [] := by
  obtain ⟨parsed, hparsed, rfl⟩ := Option.map_eq_some_iff.mp h
  unfold urlsplit at hparsed
  split at hparsed
  case isFalse => cases hparsed
  case isTrue =>
  obtain rfl := Option.some.inj hparsed
  have hnone : netlocOf (before ++ (domainPropertyPrefix.toList ++ rest) ++ after) = [] := by
    rcases cleaned_space (v := "c-domain:".toList ++ rest) after hbefore
      (show isC0OrSpace 's' = false by decide) with hsame | ⟨c, tail, hc, hclean⟩
    · have hsame' : cleaned (before ++ (domainPropertyPrefix.toList ++ rest) ++ after) =
          domainPropertyPrefix.toList ++
            (rest.filter (!isUnsafe ·) ++ after.filter (!isUnsafe ·)) := hsame
      unfold netlocOf
      rw [hsame', splitNetloc_domain]
      intro hmem
      rcases List.mem_append.mp hmem with hmem | hmem
      · exact hslash (List.mem_filter.mp hmem).1
      · exact absurd (hafter _ (List.mem_filter.mp hmem).1) (by decide)
    · exact netlocOf_of_space hc hclean
  show bareHost U (netlocOf _) = []
  rw [hnone, bareHost_nil]

/-- A URL without white space has a host without. -/
theorem not_hasSpace_bare {url host : List Char} (hurl : ¬HasSpace url)
    (h : bare U url = some host) : ¬HasSpace host := by
  obtain ⟨parsed, hparsed, rfl⟩ := Option.map_eq_some_iff.mp h
  unfold urlsplit at hparsed
  split at hparsed
  case isFalse => cases hparsed
  case isTrue =>
  obtain rfl := Option.some.inj hparsed
  intro hspace
  have hdropped : HasSpace (rstripDots (U.lower ((hostname U (netlocOf url)).getD []))) := by
    unfold bareHost withoutWww at hspace
    split at hspace
    · exact hasSpace_of_sub hspace fun _ hc => List.mem_of_mem_drop hc
    · exact hspace
  have hlower := U.lower_space.mp (hasSpace_of_rstripDots hdropped)
  cases hhost : hostname U (netlocOf url) with
  | none =>
      obtain ⟨c, hc, -⟩ := hlower
      rw [hhost] at hc
      exact absurd hc List.not_mem_nil
  | some host =>
      rw [hhost] at hlower
      have hnetloc := hasSpace_of_hostname hhost hlower
      exact hurl (hasSpace_of_sub hnetloc fun _ hc => mem_of_mem_netlocOf hc)

theorem hasSpace_domainOf {host : String} (h : HasSpace host.toList) : HasSpace (domainOf U host) :=
  hasSpace_rstripDots (U.lower_space.mpr h)

/-- What `validate_property_url` lets pass. -/
theorem validatePropertyUrl_ok {sent stored : String} (h : validatePropertyUrl sent = .ok stored) :
    stored = Text.strip sent ∧
      ((∃ host, Text.dropPrefix? domainPropertyPrefix stored = some host ∧ '/' ∉ host.toList) ∨
        (Text.dropPrefix? domainPropertyPrefix stored = none ∧ ∃ pre rest,
          (pre = "http://".toList ∨ pre = "https://".toList) ∧ stored.toList = pre ++ rest)) := by
  unfold validatePropertyUrl at h
  dsimp only at h
  split at h
  · cases h
  · split at h
    · next host hdomain =>
        split at h
        · cases h
        · next hbad =>
            obtain rfl := Except.ok.inj h
            exact ⟨rfl, .inl ⟨host, hdomain, fun hslash => hbad (.inr (.inl hslash))⟩⟩
    · next hdomain =>
        split at h
        · next hhttp =>
            obtain rfl := Except.ok.inj h
            refine ⟨rfl, .inr ⟨hdomain, ?_⟩⟩
            rcases hhttp with hhttp | hhttp
            · obtain ⟨rest, hrest⟩ := Option.isSome_iff_exists.mp hhttp
              exact ⟨_, _, .inl rfl, Text.toList_of_dropPrefix? hrest⟩
            · obtain ⟨rest, hrest⟩ := Option.isSome_iff_exists.mp hhttp
              exact ⟨_, _, .inr rfl, Text.toList_of_dropPrefix? hrest⟩
        · cases h

/-- The host a property is compared by. -/
def FitsHost (U : Unicode) (property : String) (siteHost : List Char) : Prop :=
  match Text.dropPrefix? domainPropertyPrefix property with
  | some host => domainOf U host = siteHost
  | none => bare U property.toList = some siteHost

theorem fitsHost_domain {property host : String} {siteHost : List Char}
    (h : Text.dropPrefix? domainPropertyPrefix property = some host) :
    FitsHost U property siteHost ↔ domainOf U host = siteHost := by
  unfold FitsHost
  rw [h]

theorem fitsHost_web {property : String} {siteHost : List Char}
    (h : Text.dropPrefix? domainPropertyPrefix property = none) :
    FitsHost U property siteHost ↔ bare U property.toList = some siteHost := by
  unfold FitsHost
  rw [h]

/-- What a property that matches a site is compared with. -/
theorem propertyMatchesSite_iff {property site : String} :
    propertyMatchesSite U property site = some true ↔
      ∃ siteHost, bare U site.toList = some siteHost ∧ siteHost ≠ [] ∧
        FitsHost U property siteHost := by
  unfold propertyMatchesSite FitsHost
  cases bare U site.toList with
  | none => simp
  | some siteHost =>
      by_cases hne : siteHost = []
      · simp [hne]
      · cases Text.dropPrefix? domainPropertyPrefix property <;> simp [hne]

/-- A text that begins with anything but `s` is no domain property. -/
theorem not_domain_of_head {property : String} {c : Char} {rest : List Char}
    (h : property.toList = c :: rest) (hc : c ≠ 's') :
    Text.dropPrefix? domainPropertyPrefix property = none := by
  by_contra hsome
  obtain ⟨t, ht⟩ := Option.ne_none_iff_exists'.mp hsome
  have hhead := congrArg List.head? (Text.toList_of_dropPrefix? ht)
  rw [h] at hhead
  exact hc (Option.some.inj hhead)

section Sent
variable {sent stored : String} {before after siteHost : List Char}
  (hsplit : sent.toList = before ++ stored.toList ++ after)
  (hbefore : ∀ c ∈ before, Text.isSpace c = true) (hafter : ∀ c ∈ after, Text.isSpace c = true)
  (hne : siteHost ≠ []) (hplain : ¬HasSpace siteHost)

include hsplit hbefore hafter hne hplain

theorem fitsHost_stripped_domain {host : String}
    (hdomain : Text.dropPrefix? domainPropertyPrefix stored = some host)
    (hslash : '/' ∉ host.toList) (hfits : FitsHost U sent siteHost) :
    FitsHost U stored siteHost := by
  rw [Text.toList_of_dropPrefix? hdomain] at hsplit
  rw [fitsHost_domain hdomain]
  cases before with
  | cons c cs =>
      have hc := ne_of_isSpace (d := 's') (hbefore c List.mem_cons_self) (by decide)
      rw [fitsHost_web (not_domain_of_head (by rw [hsplit]; rfl) hc), hsplit] at hfits
      exact absurd (bare_of_domain hslash hbefore hafter hfits) hne
  | nil =>
      -- What follows the prefix in the sent spelling is the domain and white space.
      rw [List.nil_append, List.append_assoc] at hsplit
      rw [fitsHost_domain (Text.dropPrefix?_of_toList hsplit)] at hfits
      cases after with
      | nil =>
          rw [List.append_nil, String.ofList_toList] at hfits
          exact hfits
      | cons c cs =>
          have hspace : HasSpace (String.ofList (host.toList ++ c :: cs)).toList := by
            rw [String.toList_ofList]
            exact ⟨c, List.mem_append_right _ List.mem_cons_self, hafter c List.mem_cons_self⟩
          have hhost := hasSpace_domainOf (U := U) hspace
          rw [hfits] at hhost
          exact absurd hhost hplain

theorem fitsHost_stripped_web {pre rest : List Char}
    (hdomain : Text.dropPrefix? domainPropertyPrefix stored = none)
    (hpre : pre = "http://".toList ∨ pre = "https://".toList)
    (htext : stored.toList = pre ++ rest) (hfits : FitsHost U sent siteHost) :
    FitsHost U stored siteHost := by
  rw [htext] at hsplit
  have hsent : Text.dropPrefix? domainPropertyPrefix sent = none := by
    cases before with
    | nil =>
        obtain ⟨tail, rfl⟩ : ∃ tail, pre = 'h' :: tail := by
          rcases hpre with rfl | rfl <;> exact ⟨_, rfl⟩
        exact not_domain_of_head (by rw [hsplit]; rfl) (by decide)
    | cons c cs =>
        have hc := ne_of_isSpace (d := 's') (hbefore c List.mem_cons_self) (by decide)
        exact not_domain_of_head (by rw [hsplit]; rfl) hc
  rw [fitsHost_web hsent, hsplit] at hfits
  rw [fitsHost_web hdomain, htext]
  exact bare_of_stripped hpre hbefore hafter hne hplain hfits

end Sent

/-- The spelling that is stored matches the site when the one that was sent did. -/
theorem propertyMatchesSite_validated {sent stored : String} {site : HttpUrl}
    (hmatch : propertyMatchesSite U sent site.text = some true)
    (hstored : validatePropertyUrl sent = .ok stored) :
    propertyMatchesSite U stored site.text = some true := by
  obtain ⟨siteHost, hsite, hne, hfits⟩ := propertyMatchesSite_iff.mp hmatch
  have hplain := not_hasSpace_bare site.plain hsite
  obtain ⟨hstrip, hshape⟩ := validatePropertyUrl_ok hstored
  obtain ⟨before, after, hsplit, hbefore, hafter⟩ := Text.strip_split sent
  rw [← hstrip] at hsplit
  refine propertyMatchesSite_iff.mpr ⟨siteHost, hsite, hne, ?_⟩
  rcases hshape with ⟨host, hdomain, hslash⟩ | ⟨hdomain, pre, rest, hpre, htext⟩
  · exact fitsHost_stripped_domain hsplit hbefore hafter hne hplain hdomain hslash hfits
  · exact fitsHost_stripped_web hsplit hbefore hafter hne hplain hdomain hpre htext hfits

end Stored

end SeoAgent.Onboarding
