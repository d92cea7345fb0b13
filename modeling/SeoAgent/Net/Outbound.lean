import SeoAgent.Net.Guard

/-!
# Where outbound requests go

`guardPermits` says what `open_public` may ask for after what it was answered: nothing at
all once a lookup had an address that is not public; a connection only to an address of
the lookup made for it, for a hop that may be taken; an exchange only over the connection
just made.

## Main results

* `openPublic_keeps` — `open_public` asks for nothing else.
* `open_public_checked` — the same of every operation, whatever the answers before it.
-/

namespace SeoAgent.Net

open SeoAgent.Verified Url Prog

section Outbound
variable (U : Unicode) (isGlobal : List Char → Option Bool)
  (target : List Char → Option (List Char × Nat))

/-! ## What may be asked for -/

/-- Every address of every lookup was public. -/
def AllPublic (past : GuardPast) : Prop :=
  ∀ host port infos, (⟨.getaddrinfo host port, .ok infos⟩ : guardIface.Event) ∈ past →
    ∀ address ∈ infos, isGlobal (withoutZone address) = some true

/-- The lookup that the attempts to connect follow. -/
def lookupOf : GuardPast → Option (List Char × Nat × List (List Char))
  | ⟨.createConnection _ _, .error _⟩ :: past => lookupOf past
  | ⟨.getaddrinfo host port, .ok infos⟩ :: _ => some (host, port, infos)
  | _ => none

/-- A URL of the original site, not without encryption when the original had it. -/
structure StaysOn (origin url : List Char) : Prop where
  site : sameSite U origin url = some true
  secure : schemeOf U origin = some https → schemeOf U url = some https

/-- A hop that may be taken. -/
structure Hop (request : Request) (sameHost : Bool) (url : List Char) : Prop where
  scheme : schemeOf U url = some "http".toList ∨ schemeOf U url = some https
  stays : url = request.fullUrl ∨ (sameHost = true → StaysOn U request.fullUrl url)

/-- What `open_public` may ask for after what it was answered. -/
def guardPermits (request : Request) (sameHost : Bool) (past : GuardPast) : GuardOp → Prop
  | .getaddrinfo _ _ => AllPublic isGlobal past
  | .createConnection address port =>
      AllPublic isGlobal past ∧ ∃ url host infos, Hop U request sameHost url ∧
        target url = some (host, port) ∧ lookupOf past = some (host, port, infos) ∧
        address ∈ infos
  | .exchange url =>
      AllPublic isGlobal past ∧ Hop U request sameHost url ∧
        ∃ address port rest, past = ⟨.createConnection address port, .ok ()⟩ :: rest

/-! ## Addresses -/

variable {U isGlobal target} {request : Request} {sameHost : Bool} {past : GuardPast}
  {host : List Char} {port : Nat}

theorem checkAddresses_ok {infos : List (List Char)}
    (h : checkAddresses isGlobal host infos = .ok ()) :
    ∀ address ∈ infos, isGlobal (withoutZone address) = some true := by
  induction infos with
  | nil => exact fun _ hmem => absurd hmem List.not_mem_nil
  | cons address rest ih =>
      unfold checkAddresses at h
      split at h
      · cases h
      · cases h
      · next hpublic =>
          intro a ha
          rcases List.mem_cons.mp ha with rfl | ha
          · exact hpublic
          · exact ih h a ha

theorem AllPublic.cons {ev : guardIface.Event} (h : AllPublic isGlobal past)
    (hev : ∀ host port infos, ev = ⟨.getaddrinfo host port, .ok infos⟩ →
      ∀ address ∈ infos, isGlobal (withoutZone address) = some true) :
    AllPublic isGlobal (ev :: past) := by
  intro host port infos hmem
  rcases List.mem_cons.mp hmem with heq | hmem
  · exact hev host port infos heq.symm
  · exact h host port infos hmem

/-- A lookup that has been checked is the last thing that was asked for. -/
structure Looked (past past' : GuardPast) (host : List Char) (port : Nat)
    (addresses : List (List Char)) : Prop where
  asked : ∃ infos, past' = ⟨.getaddrinfo host port, .ok infos⟩ :: past ∧
    ∀ address ∈ addresses, address ∈ infos
  allPublic : AllPublic isGlobal past'

theorem lookup_wp (h : AllPublic isGlobal past) :
    wp (asking (guardPermits U isGlobal target request sameHost))
      (Returns fun past' infos => past' = ⟨.getaddrinfo host port, .ok infos⟩ :: past)
      (lookup host port) past := by
  unfold lookup
  rw [wp_tryCatch]
  refine wp_ask h fun r _ => ?_
  cases r with
  | ok infos => exact rfl
  | error e =>
      rw [recovering_error]
      cases e <;> trivial

theorem resolvePublic_wp (h : AllPublic isGlobal past) :
    wp (asking (guardPermits U isGlobal target request sameHost))
      (Returns fun past' addresses =>
        @Looked isGlobal past past' host port addresses)
      (resolvePublic isGlobal host port) past := by
  unfold resolvePublic
  refine returns_bind (lookup_wp h) fun past' infos _ hpast => ?_
  subst hpast
  split
  · trivial
  · refine returns_ofExcept_bind fun _ hchecked => ?_
    have hpublic := checkAddresses_ok hchecked
    refine ⟨⟨infos, rfl, fun address hmem => List.mem_eraseDups.mp hmem⟩, h.cons ?_⟩
    intro host' port' infos' heq
    cases heq
    exact hpublic

/-- The connection of a hop has just been made. -/
def Connected (isGlobal : List Char → Option Bool) (past : GuardPast) : Prop :=
  AllPublic isGlobal past ∧
    ∃ address port rest, past = ⟨.createConnection address port, .ok ()⟩ :: rest

theorem tryAddresses_wp {url : List Char} {infos addresses : List (List Char)} {last : GuardExc}
    (hpublic : AllPublic isGlobal past) (hop : Hop U request sameHost url)
    (htarget : target url = some (host, port)) (hlooked : lookupOf past = some (host, port, infos))
    (hmem : ∀ address ∈ addresses, address ∈ infos) :
    wp (asking (guardPermits U isGlobal target request sameHost))
      (Returns fun past' _ => Connected isGlobal past')
      (tryAddresses port last addresses) past := by
  induction addresses generalizing past last with
  | nil => trivial
  | cons address rest ih =>
      unfold tryAddresses
      rw [wp_tryCatch]
      have hhere := hmem address List.mem_cons_self
      refine wp_ask ⟨hpublic, url, host, infos, hop, htarget, hlooked, hhere⟩ fun r _ => ?_
      -- An attempt is no lookup, and one that failed leaves the lookup it followed.
      have hpublic' : AllPublic isGlobal (⟨.createConnection address port, r⟩ :: past) :=
        hpublic.cons fun _ _ _ heq => by cases heq
      have hrest := fun a ha => hmem a (List.mem_cons_of_mem address ha)
      cases r with
      | ok _ => exact ⟨hpublic', address, port, past, rfl⟩
      | error e =>
          rw [recovering_error]
          cases e with
          | osError message => exact ih hpublic' hlooked hrest
          | gaierror => exact ih hpublic' hlooked hrest
          | unsafeAddressError message => trivial
          | valueError => trivial
          | httpError code => trivial

theorem connectChecked_wp {url : List Char} (hpublic : AllPublic isGlobal past)
    (hop : Hop U request sameHost url) (htarget : target url = some (host, port)) :
    wp (asking (guardPermits U isGlobal target request sameHost))
      (Returns fun past' _ => Connected isGlobal past')
      (connectChecked isGlobal host port) past := by
  unfold connectChecked
  refine returns_bind (resolvePublic_wp hpublic) fun past' addresses _ hlooked => ?_
  obtain ⟨⟨infos, rfl, hmem⟩, hpublic'⟩ := hlooked
  exact tryAddresses_wp hpublic' hop htarget rfl hmem

/-! ## Hops -/

theorem ensurePublicUrl_wp {url : List Char} (h : AllPublic isGlobal past) :
    wp (asking (guardPermits U isGlobal target request sameHost))
      (Returns fun past' _ => AllPublic isGlobal past' ∧
        (schemeOf U url = some "http".toList ∨ schemeOf U url = some https))
      (ensurePublicUrl U isGlobal url) past := by
  unfold ensurePublicUrl
  split
  · trivial
  · next parsed hsplit =>
      split
      · trivial
      · next hscheme =>
          have hscheme' : schemeOf U url = some "http".toList ∨ schemeOf U url = some https := by
            unfold schemeOf
            rw [hsplit]
            by_cases hhttp : parsed.scheme = "http".toList
            · exact .inl (congrArg some hhttp)
            · exact .inr (congrArg some (Decidable.not_not.mp fun hs => hscheme ⟨hhttp, hs⟩))
          split
          · trivial
          · trivial
          · exact returns_bind (resolvePublic_wp h) fun past' _ _ hlooked =>
              ⟨hlooked.allPublic, hscheme'⟩

/-- A redirect that is not refused stays on the site. -/
theorem staysOn_of_redirectRefusal {origin newurl : List Char}
    (h : redirectRefusal U origin newurl = none) : StaysOn U origin newurl := by
  unfold redirectRefusal at h
  split at h
  · cases h
  · cases h
  · next hsite =>
      split at h
      · next first second hfirst hsecond =>
          split at h
          · cases h
          · next hdrop =>
              refine ⟨hsite, fun hsecure => ?_⟩
              have hfirst' : first = https := Option.some.inj (hfirst.symm.trans hsecure)
              rw [hsecond]
              exact congrArg some (Decidable.not_not.mp fun hs => hdrop ⟨hfirst', hs⟩)
      · cases h

theorem redirectRequest_wp {current : Request} {code : Nat} {newurl : List Char}
    (h : AllPublic isGlobal past) :
    wp (asking (guardPermits U isGlobal target request sameHost))
      (Returns fun past' next => AllPublic isGlobal past' ∧ Hop U request sameHost next.fullUrl)
      (redirectRequest U isGlobal (if sameHost then some request.fullUrl else none) current code
        newurl) past := by
  unfold redirectRequest
  refine returns_bind (ensurePublicUrl_wp h) fun past' _ _ ⟨hpublic, hscheme⟩ => ?_
  split
  · trivial
  · next hrefusal =>
      split
      · refine ⟨hpublic, hscheme, .inr fun hsame => ?_⟩
        rw [hsame, if_pos rfl, Option.bind_some] at hrefusal
        exact staysOn_of_redirectRefusal hrefusal
      · trivial

theorem openHop_wp {current : Request} {redirected : Nat → Request → GuardProc Unit}
    (hpublic : AllPublic isGlobal past) (hop : Hop U request sameHost current.fullUrl)
    (hredirected : ∀ past' code next, AllPublic isGlobal past' →
      Hop U request sameHost next.fullUrl →
      wp (asking (guardPermits U isGlobal target request sameHost)) (Returns fun _ _ => True)
        (redirected code next) past') :
    wp (asking (guardPermits U isGlobal target request sameHost)) (Returns fun _ _ => True)
      (openHop U isGlobal target (if sameHost then some request.fullUrl else none) current
        redirected) past := by
  unfold openHop
  split
  · trivial
  · next host port htarget =>
      refine returns_bind (connectChecked_wp hpublic hop htarget) fun past₁ _ _ hconnected => ?_
      obtain ⟨hpublic₁, hmade⟩ := hconnected
      refine wp_ask_bind ⟨hpublic₁, hop, hmade⟩ (fun reply _ => ?_) fun _ _ => trivial
      -- An exchange is no lookup.
      have hpublic₂ : AllPublic isGlobal (⟨.exchange current.fullUrl, .ok reply⟩ :: past₁) :=
        hpublic₁.cons fun _ _ _ heq => by cases heq
      cases reply with
      | answer => trivial
      | redirect code newurl =>
          exact returns_bind (redirectRequest_wp hpublic₂) fun past₃ next _ hnext =>
            hredirected past₃ code next hnext.1 hnext.2

theorem openFrom_wp {redirects : Nat} {current : Request} (hpublic : AllPublic isGlobal past)
    (hop : Hop U request sameHost current.fullUrl) :
    wp (asking (guardPermits U isGlobal target request sameHost)) (Returns fun _ _ => True)
      (openFrom U isGlobal target (if sameHost then some request.fullUrl else none) redirects
        current) past := by
  induction redirects generalizing current past with
  | zero => exact openHop_wp hpublic hop fun _ _ _ _ _ => trivial
  | succ left ih => exact openHop_wp hpublic hop fun _ _ _ hpublic' hop' => ih hpublic' hop'

/-- `open_public` asks only for what it may. -/
theorem openPublic_keeps {redirects : Nat} :
    wp (asking (guardPermits U isGlobal target request sameHost)) (Returns fun _ _ => True)
      (openPublic U isGlobal target request sameHost redirects) [] := by
  have hnone : AllPublic isGlobal [] := fun _ _ _ hmem => absurd hmem List.not_mem_nil
  unfold openPublic
  exact returns_bind (ensurePublicUrl_wp hnone) fun _ _ _ ⟨hpublic, hscheme⟩ =>
    openFrom_wp hpublic ⟨hscheme, .inl rfl⟩

/-- Whatever the lookups, the connections and the other side answered, what `open_public`
asks for next it may ask for. -/
theorem open_public_checked {redirects : Nat} {o : GuardOp}
    {k : guardIface.Answer o → GuardProc Unit}
    (h : Reaches (openPublic U isGlobal target request sameHost redirects) past (.call o k)) :
    guardPermits U isGlobal target request sameHost past o :=
  permitted_of_reaches openPublic_keeps h

end Outbound

/-! ## A run -/

/-- The addresses of one public host. -/
def shopOnly (address : List Char) : Option Bool := some (address = "203.0.113.7".toList)

/-- The host between the slashes of a URL, at the port of `https`. -/
def secureTarget (url : List Char) : Option (List Char × Nat) :=
  (urlsplit ascii url).map fun parsed => (parsed.netloc, 443)

def shop : Request := { fullUrl := "https://shop.example/".toList, method := "GET" }

/-- The site redirects to its other name. -/
def redirected : List guardIface.Event :=
  let address := "203.0.113.7".toList
  let host := "shop.example".toList
  let other := "www.shop.example".toList
  [⟨.getaddrinfo host 443, .ok [address]⟩,
    ⟨.getaddrinfo host 443, .ok [address, address]⟩,
    ⟨.createConnection address 443, .ok ()⟩,
    ⟨.exchange "https://shop.example/".toList, .ok (.redirect 301 "https://www.shop.example/".toList)⟩,
    ⟨.getaddrinfo other 443, .ok [address]⟩,
    ⟨.getaddrinfo other 443, .ok [address]⟩]

set_option maxRecDepth 20000 in
theorem open_public_checked_redirected :
    guardPermits ascii shopOnly secureTarget shop true redirected.reverse
      (.createConnection "203.0.113.7".toList 443) := by
  have h : (replay redirected (openPublic ascii shopOnly secureTarget shop true 10)).bind next? =
      some (.createConnection "203.0.113.7".toList 443) := by decide
  obtain ⟨k, hk⟩ := reaches_call h
  exact open_public_checked hk

end SeoAgent.Net
