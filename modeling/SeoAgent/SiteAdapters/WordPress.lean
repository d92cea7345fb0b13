import SeoAgent.Verified.Url
import SeoAgent.Verified.Json
import SeoAgent.Ports.Exceptions

/-!
# The WordPress adapter

`WordPressSiteAdapter` finds the post of a page by the last segment of its path and writes
to that post by its id. The site answers every request as it likes, each answer standing as
what is left of it once the status is checked and the JSON decoded. Titles and contents that
are only shown are left out, as is the quoting of the segment.

## Main results

* `change_writes` — an operation writes to the post it has resolved, and to no other.
* `onlyRequested_iff` — when the resolved post is always the one that was requested.
-/

namespace SeoAgent.SiteAdapters

open Verified Ports

/-! ## Requests -/

/-- A request of the adapter's. A post's id stands as the JSON value it was read from. -/
inductive Request
  | lookup (slug : List Char)
  | update (postId : Json) (payload : Dict) (idempotencyKey : String)
  | revisions (postId : Json)

/-- How the site answers a request, given those it had before. -/
abbrev Site : Type := List Request → Request → Except Exc Json

/-- Work of the adapter's: what comes of it, and the requests that were sent. -/
def Work (α : Type) : Type := List Request → Except Exc α × List Request

namespace Work
variable {α β : Type}

/-- Work that sends nothing. -/
def ofExcept (result : Except Exc α) : Work α := fun sent => (result, sent)

/-- One piece of work after another; an error ends it. -/
def bind (work : Work α) (next : α → Work β) : Work β := fun sent =>
  match work sent with
  | (.error exc, sent) => (.error exc, sent)
  | (.ok a, sent) => next a sent

instance : Monad Work where
  pure a := ofExcept (.ok a)
  bind := bind

/-- `_request` and `_decode_json`. -/
def ask (site : Site) (request : Request) : Work Json := fun sent =>
  (site sent request, sent ++ [request])

/-- The updates among some requests: the ids they are sent to. -/
def updated (sent : List Request) : List Json :=
  sent.filterMap fun
    | .update postId _ _ => some postId
    | _ => none

theorem bind_eq (work : Work α) (next : α → Work β) (sent : List Request) :
    (work >>= next) sent = match work sent with
      | (.error exc, sent) => (.error exc, sent)
      | (.ok a, sent) => next a sent := rfl

theorem ofExcept_bind (result : Except Exc α) (next : α → Work β) (sent : List Request) :
    (ofExcept result >>= next) sent = match result with
      | .error exc => (.error exc, sent)
      | .ok a => next a sent := by
  cases result <;> rfl

theorem ask_bind (site : Site) (request : Request) (next : Json → Work β)
    (sent : List Request) :
    (ask site request >>= next) sent = match site sent request with
      | .error exc => (.error exc, sent ++ [request])
      | .ok answer => next answer (sent ++ [request]) := by
  rw [bind_eq]
  unfold ask
  cases site sent request <;> rfl

end Work

/-! ## Errors -/

/-- `WordPressAdapterError(message)`. -/
def adapterError (message : String) : Exc := ⟨.other "WordPressAdapterError", message⟩

/-- What `urlsplit` raises. -/
def invalidUrl : Exc := .valueError "Invalid URL"

/-! ## URLs -/

section
variable (U : Url.Unicode)

/-- `rstrip("/")`. -/
def rstripSlashes (s : List Char) : List Char := s.rdropWhile (· = '/')

/-- `_normalize_url`: scheme, host and path without the slashes at its end, in lower case. -/
def normalizeUrl (url : List Char) : Except Exc (List Char) :=
  match Url.urlsplit U url with
  | none => .error invalidUrl
  | some parts => .ok (U.lower (parts.scheme ++ "://".toList ++ parts.netloc ++
      rstripSlashes (Url.splitParams parts.scheme (Url.path url)).1))

/-- What `_normalize_url` leaves out of a URL, in lower case: the parameters, the query and
the fragment. -/
def afterPath (url : List Char) : List Char × List Char × List Char :=
  let scheme := (Url.splitScheme (Url.cleaned url)).1
  (U.lower (Url.splitParams scheme (Url.path url)).2, U.lower (Url.query url),
    U.lower (Url.fragment url))

/-- `link`, when it is a text. -/
def linkOf (post : Dict) : Option (List Char) :=
  match post.get? "link" with
  | some (.str link) => some link.toList
  | _ => none

/-- `_url_matches`. -/
def urlMatches (url : List Char) (post : Dict) : Except Exc Bool :=
  match linkOf post with
  | none => .ok false
  | some link => do
      let theirs ← normalizeUrl U link
      let ours ← normalizeUrl U url
      return theirs = ours

/-- The posts among the answer whose link matches. -/
def exactMatches (url : List Char) : List Json → Except Exc (List Dict)
  | [] => .ok []
  | .dict post :: payload => do
      let same ← urlMatches U url post
      let posts ← exactMatches url payload
      return if same then post :: posts else posts
  | _ :: payload => exactMatches url payload

/-- The last segment of a URL's path, by which its post is looked up. -/
def slugOf (url : List Char) : Except Exc (List Char) :=
  match Url.urlsplit U url with
  | none => .error invalidUrl
  | some parts =>
      let path := rstripSlashes
        ((Url.splitParams parts.scheme (Url.path url)).1.dropWhile (· = '/'))
      if path = [] then
        .error (adapterError "Cannot resolve a WordPress post from an empty URL path.")
      else .ok (path.rtakeWhile (· ≠ '/'))

/-- The one post that matches, or else the one post that was answered. -/
def chosen (posts : List Dict) (payload : List Json) : Except Exc Dict :=
  match posts, payload with
  | [post], _ => .ok post
  | _, [.dict item] => .ok item
  | _, _ => .error (adapterError "WordPress slug lookup returned an ambiguous result.")

/-- The post of the answer to a lookup. -/
def choosePost (url slug : List Char) (answer : Json) : Except Exc Dict :=
  match answer with
  | .list [] => .error (adapterError
      s!"WordPress content not found for slug: {String.ofList slug}")
  | .list payload =>
      match exactMatches U url payload with
      | .error exc => .error exc
      | .ok posts => chosen posts payload
  | _ => .error (adapterError "WordPress slug lookup must return an array.")

/-- `_resolve_post`. -/
def resolvePost (site : Site) (url : List Char) : Work Dict := do
  let slug ← Work.ofExcept (slugOf U url)
  let answer ← Work.ask site (.lookup slug)
  Work.ofExcept (choosePost U url slug answer)

/-! ## Operations -/

/-- `_post_id`; a Boolean is an `int` too. -/
def postIdOf (post : Dict) : Except Exc Json :=
  match post.get? "id" with
  | some (.int n) => .ok (.int n)
  | some (.bool b) => .ok (.bool b)
  | _ => .error (adapterError "WordPress response does not contain a valid post id.")

/-- What an idempotency key has to be. -/
def checkKey (idempotencyKey : String) : Except Exc Unit :=
  if Text.strip idempotencyKey = "" then
    .error (.valueError "idempotency_key must not be empty")
  else .ok ()

/-- `_update_post`. -/
def updatePost (site : Site) (postId : Json) (payload : Dict) (idempotencyKey : String) :
    Work Dict := do
  Work.ofExcept (checkKey idempotencyKey)
  match ← Work.ask site (.update postId payload idempotencyKey) with
  | .dict updated => return updated
  | _ => Work.ofExcept (.error
      (adapterError "WordPress update response must be an object."))

/-- `_resolve_latest_revision_id`. -/
def latestRevisionId (site : Site) (postId : Json) : Work Json := do
  match ← Work.ask site (.revisions postId) with
  | .list (.dict latest :: _) =>
      match Dict.get? latest "id" with
      | some (.int n) => return Json.int n
      | some (.bool b) => return Json.bool b
      | _ => Work.ofExcept (.error
          (adapterError "WordPress revision does not contain a valid id."))
  | .list (_ :: _) => Work.ofExcept (.error
      (adapterError "Invalid WordPress revision payload."))
  | _ => Work.ofExcept (.error
      (adapterError "WordPress did not return a usable revision."))

/-- `_build_change_id`: the post and its latest revision. -/
def buildChangeId (site : Site) (post : Dict) : Work (Json × Json) := do
  let postId ← Work.ofExcept (postIdOf post)
  let revisionId ← latestRevisionId site postId
  return (postId, revisionId)

/-- A change of one page: its post is resolved, updated and asked for its revision. -/
def changePage (site : Site) (url : List Char) (payload : Dict) (idempotencyKey : String) :
    Work (Json × Json) := do
  let post ← resolvePost U site url
  let postId ← Work.ofExcept (postIdOf post)
  let updated ← updatePost site postId payload idempotencyKey
  buildChangeId site updated

/-- The operations on one page. -/
inductive Operation
  | updateTitle (newTitle : String)
  | updateMetaDescription (newMetaDescription : String)
  | updateContent (newContent : String)
  | updateInternalLinks (newContent : String)
  | publishContent

/-- What an operation sends. -/
def Operation.payload : Operation → Dict
  | .updateTitle newTitle => [("title", .str newTitle)]
  | .updateMetaDescription newMetaDescription =>
      [("meta", .dict [("_seo_agent_meta_description", .str newMetaDescription)])]
  | .updateContent newContent => [("content", .str newContent)]
  | .updateInternalLinks newContent => [("content", .str newContent)]
  | .publishContent => [("status", .str "publish")]

/-- An operation: `update_title` looks at the key before the page, the others after. -/
def Operation.perform (site : Site) (url : List Char) (idempotencyKey : String) :
    Operation → Work (Json × Json)
  | .updateTitle newTitle => do
      Work.ofExcept (checkKey idempotencyKey)
      changePage U site url (Operation.payload (.updateTitle newTitle)) idempotencyKey
  | op => changePage U site url op.payload idempotencyKey

end

/-! ## What is written -/

section Writes
variable {U : Url.Unicode} {site : Site} {url : List Char} {α β : Type}

/-- After these requests the work sends updates to such ids only. -/
def UpdatesOnly (P : Json → Prop) (work : Work α) (sent : List Request) : Prop :=
  ∃ more, (work sent).2 = sent ++ more ∧ ∀ postId ∈ Work.updated more, P postId

variable {P : Json → Prop} {work : Work α} {next : α → Work β} {sent : List Request}

theorem UpdatesOnly.ofExcept {result : Except Exc α} :
    UpdatesOnly P (Work.ofExcept result) sent :=
  ⟨[], (List.append_nil _).symm, by simp [Work.updated]⟩

theorem UpdatesOnly.bind (h : UpdatesOnly P work sent)
    (hnext : ∀ a sent', work sent = (.ok a, sent') → UpdatesOnly P (next a) sent') :
    UpdatesOnly P (work >>= next) sent := by
  obtain ⟨more, hmore, hids⟩ := h
  unfold UpdatesOnly
  rw [Work.bind_eq]
  cases hwork : work sent with
  | mk result sent' =>
      rw [hwork] at hmore
      cases result with
      | error exc => exact ⟨more, hmore, hids⟩
      | ok a =>
          obtain ⟨more', hmore', hids'⟩ := hnext a sent' hwork
          replace hmore : sent' = sent ++ more := hmore
          refine ⟨more ++ more', ?_, fun postId hid => ?_⟩
          · show (next a sent').2 = sent ++ (more ++ more')
            rw [hmore', hmore, List.append_assoc]
          · unfold Work.updated at hid
            rw [List.filterMap_append] at hid
            rcases List.mem_append.mp hid with hid | hid
            · exact hids postId hid
            · exact hids' postId hid

/-- Any request may be sent that is no update, and an update to such an id. -/
theorem UpdatesOnly.ask {request : Request}
    (h : ∀ postId payload key, request = .update postId payload key → P postId) :
    UpdatesOnly P (Work.ask site request) sent := by
  refine ⟨[request], rfl, fun postId hid => ?_⟩
  unfold Work.updated at hid
  cases request with
  | update id payload key =>
      rw [List.mem_singleton.mp hid]
      exact h id payload key rfl
  | lookup slug => cases hid
  | revisions id => cases hid

theorem resolvePost_updatesOnly : UpdatesOnly P (resolvePost U site url) sent :=
  .bind .ofExcept fun _ _ _ => .bind (.ask nofun) fun _ _ _ => .ofExcept

theorem updatePost_updatesOnly {postId : Json} {payload : Dict} {key : String}
    (h : P postId) : UpdatesOnly P (updatePost site postId payload key) sent := by
  refine .bind .ofExcept fun _ _ _ => .bind (.ask ?_) fun answer _ _ => ?_
  · rintro id payload key ⟨⟩
    exact h
  · split <;> exact .ofExcept

theorem buildChangeId_updatesOnly {post : Dict} :
    UpdatesOnly P (buildChangeId site post) sent := by
  refine .bind .ofExcept fun _ _ _ => .bind (.bind (.ask nofun) fun answer _ _ => ?_)
    fun _ _ _ => .ofExcept
  split
  · split <;> exact .ofExcept
  · exact .ofExcept
  · exact .ofExcept

theorem changePage_updatesOnly {payload : Dict} {key : String} :
    UpdatesOnly (fun postId => ∃ post, (resolvePost U site url sent).1 = .ok post ∧
      postIdOf post = .ok postId) (changePage U site url payload key) sent := by
  refine .bind resolvePost_updatesOnly fun post sent₁ hpost => ?_
  refine .bind .ofExcept fun postId sent₂ hid => ?_
  have hid : postIdOf post = .ok postId := congrArg Prod.fst hid
  refine .bind (updatePost_updatesOnly ⟨post, by rw [hpost], hid⟩) fun _ _ _ => ?_
  exact buildChangeId_updatesOnly

variable (site url sent) in
/-- An operation writes to the post it has resolved, and to no other. -/
theorem change_writes (key : String) (op : Operation) :
    UpdatesOnly (fun postId => ∃ post, (resolvePost U site url sent).1 = .ok post ∧
      postIdOf post = .ok postId) (op.perform U site url key) sent := by
  cases op with
  | updateTitle newTitle =>
      refine .bind .ofExcept fun _ sent' hkey => ?_
      obtain rfl : sent = sent' := congrArg Prod.snd hkey
      exact changePage_updatesOnly
  | updateMetaDescription _ => exact changePage_updatesOnly
  | updateContent _ => exact changePage_updatesOnly
  | updateInternalLinks _ => exact changePage_updatesOnly
  | publishContent => exact changePage_updatesOnly

end Writes

/-! ## Which post is resolved -/

section Resolved
variable {U : Url.Unicode} {site : Site} {url slug : List Char} {payload : List Json}
  {post : Dict}

/-- A post whose link is the URL up to upper and lower case and the slashes at the end of
the path. -/
def SamePage (U : Url.Unicode) (url : List Char) (post : Dict) : Prop :=
  urlMatches U url post = .ok true ∧
    ∃ link, linkOf post = some link ∧ afterPath U link = afterPath U url

/-- The adapter resolves and writes only the page that was requested: whatever it was asked
before, the post it resolves has the URL for its link, and every update of an operation is
sent to such a post. -/
def OnlyRequested (U : Url.Unicode) (site : Site) (url : List Char) : Prop :=
  ∀ sent, (∀ post, (resolvePost U site url sent).1 = .ok post → SamePage U url post) ∧
    ∀ op key, UpdatesOnly (fun postId => ∃ post, (resolvePost U site url sent).1 = .ok post ∧
      postIdOf post = .ok postId ∧ SamePage U url post)
      (Operation.perform U site url key op) sent

/-- The answers to the lookup of a URL. -/
def Answers (U : Url.Unicode) (site : Site) (url : List Char) (payload : List Json) : Prop :=
  ∃ slug sent, slugOf U url = .ok slug ∧ site sent (.lookup slug) = .ok (.list payload)

/-- What the lookup must not answer: one post alone whose link is another one, or one post
whose link differs only in what follows the path. -/
def Unmistakable (U : Url.Unicode) (site : Site) (url : List Char) : Prop :=
  ∀ payload posts, Answers U site url payload → exactMatches U url payload = .ok posts →
    (∀ post link, posts = [post] → linkOf post = some link →
      afterPath U link = afterPath U url) ∧
    ((∀ post, posts ≠ [post]) → ∀ item, payload ≠ [.dict item])

/-- The posts that match are posts of the answer whose link matches. -/
theorem mem_exactMatches {posts : List Dict} (h : exactMatches U url payload = .ok posts)
    (hpost : post ∈ posts) : Json.dict post ∈ payload ∧ urlMatches U url post = .ok true := by
  induction payload generalizing posts with
  | nil =>
      obtain rfl := Except.ok.inj h
      cases hpost
  | cons item payload ih =>
      cases item with
      | dict first =>
          unfold exactMatches at h
          cases hsame : urlMatches U url first with
          | error exc => rw [hsame] at h; cases h
          | ok same =>
              rw [hsame] at h
              cases hrest : exactMatches U url payload with
              | error exc => rw [hrest] at h; cases h
              | ok rest =>
                  rw [hrest] at h
                  obtain rfl := Except.ok.inj h
                  have hcases : (post = first ∧ same = true) ∨ post ∈ rest := by
                    cases same with
                    | true => simpa using hpost
                    | false => exact .inr hpost
                  rcases hcases with ⟨rfl, rfl⟩ | hmem
                  · exact ⟨List.mem_cons_self, hsame⟩
                  · obtain ⟨hin, hmatch⟩ := ih hrest hmem
                    exact ⟨List.mem_cons_of_mem _ hin, hmatch⟩
      | null | bool | int | number | str | list =>
          obtain ⟨hin, hmatch⟩ := ih h hpost
          exact ⟨List.mem_cons_of_mem _ hin, hmatch⟩

theorem chosen_ok_iff {posts : List Dict} : chosen posts payload = .ok post ↔
    posts = [post] ∨ (∀ p, posts ≠ [p]) ∧ payload = [.dict post] := by
  unfold chosen
  split
  · next p =>
      constructor
      · intro h
        exact .inl (by rw [Except.ok.inj h])
      · rintro (h | ⟨hnot, -⟩)
        · rw [(List.cons.inj h).1]
        · exact absurd rfl (hnot p)
  · next item hnot =>
      constructor
      · intro h
        exact .inr ⟨fun p hp => hnot p hp, by rw [Except.ok.inj h]⟩
      · rintro (h | ⟨-, h⟩)
        · exact absurd h (hnot post)
        · rw [Json.dict.inj (List.cons.inj h).1]
  · next hnot hitem =>
      constructor
      · intro h
        cases h
      · rintro (h | ⟨-, h⟩)
        · exact absurd h (hnot post)
        · exact absurd h (hitem post)

/-- A post that matches has a link. -/
theorem link_of_match (h : urlMatches U url post = .ok true) :
    ∃ link, linkOf post = some link := by
  unfold urlMatches at h
  split at h
  · cases h
  · next link hlink => exact ⟨link, hlink⟩

/-- What is chosen from an answer: the one post that matches, or the one post there is. -/
theorem choosePost_ok_iff {answer : Json} : choosePost U url slug answer = .ok post ↔
    ∃ payload posts, answer = .list payload ∧ exactMatches U url payload = .ok posts ∧
      (posts = [post] ∨ (∀ p, posts ≠ [p]) ∧ payload = [.dict post]) := by
  constructor
  · intro h
    unfold choosePost at h
    split at h
    · cases h
    · next payload _ =>
        split at h
        · cases h
        · next posts hposts => exact ⟨payload, posts, rfl, hposts, chosen_ok_iff.mp h⟩
    · cases h
  · rintro ⟨payload, posts, rfl, hposts, hchosen⟩
    cases payload with
    | nil =>
        obtain rfl := Except.ok.inj hposts
        rcases hchosen with h | ⟨-, h⟩ <;> cases h
    | cons item payload =>
        unfold choosePost
        dsimp only
        rw [hposts]
        exact chosen_ok_iff.mpr hchosen

/-- What is resolved is chosen from an answer to the lookup. -/
theorem resolvePost_ok_iff {sent : List Request} :
    (resolvePost U site url sent).1 = .ok post ↔ ∃ slug payload posts,
      slugOf U url = .ok slug ∧ site sent (.lookup slug) = .ok (.list payload) ∧
      exactMatches U url payload = .ok posts ∧
      (posts = [post] ∨ (∀ p, posts ≠ [p]) ∧ payload = [.dict post]) := by
  unfold resolvePost
  rw [Work.ofExcept_bind]
  cases hslug : slugOf U url with
  | error exc => simp
  | ok slug =>
      dsimp only
      rw [Work.ask_bind]
      cases hanswer : site sent (.lookup slug) with
      | error exc =>
          constructor
          · intro h
            cases h
          · rintro ⟨slug', payload, posts, hslug', hpayload, -⟩
            obtain rfl := Except.ok.inj hslug'
            rw [hanswer] at hpayload
            cases hpayload
      | ok answer =>
          show choosePost U url slug answer = .ok post ↔ _
          rw [choosePost_ok_iff]
          constructor
          · rintro ⟨payload, posts, rfl, hposts, hchosen⟩
            exact ⟨slug, payload, posts, rfl, hanswer, hposts, hchosen⟩
          · rintro ⟨slug', payload, posts, hslug', hpayload, hposts, hchosen⟩
            obtain rfl := Except.ok.inj hslug'
            exact ⟨payload, posts, Except.ok.inj (hanswer.symm.trans hpayload), hposts, hchosen⟩

/-- A post alone in the answer that does not match has another link. -/
theorem not_samePage_of_alone {posts : List Dict} (hposts : exactMatches U url [.dict post] = .ok posts)
    (hnot : ∀ p, posts ≠ [p]) : ¬SamePage U url post := by
  rintro ⟨hmatch, -⟩
  unfold exactMatches at hposts
  rw [hmatch] at hposts
  exact hnot post (Except.ok.inj hposts).symm

/-- The adapter resolves and writes only the page that was requested just when the lookup
answers neither one post alone whose link is another one, nor one post whose link differs
only in what follows the path. -/
theorem onlyRequested_iff (U : Url.Unicode) (site : Site) (url : List Char) :
    OnlyRequested U site url ↔ Unmistakable U site url := by
  constructor
  · rintro honly payload posts ⟨slug, sent, hslug, hanswer⟩ hposts
    refine ⟨?_, ?_⟩
    · rintro post link rfl hlink
      have hok := resolvePost_ok_iff.mpr ⟨slug, payload, [post], hslug, hanswer, hposts, .inl rfl⟩
      obtain ⟨-, link', hlink', hrest⟩ := (honly sent).1 post hok
      rw [Option.some.inj (hlink.symm.trans hlink')]
      exact hrest
    · rintro hnot item rfl
      have hok := resolvePost_ok_iff.mpr ⟨slug, _, posts, hslug, hanswer, hposts,
        .inr ⟨hnot, rfl⟩⟩
      exact not_samePage_of_alone hposts hnot ((honly sent).1 item hok)
  · intro hunmistakable sent
    have hsame : ∀ post, (resolvePost U site url sent).1 = .ok post → SamePage U url post := by
      intro post hok
      obtain ⟨slug, payload, posts, hslug, hanswer, hposts, hchosen⟩ := resolvePost_ok_iff.mp hok
      obtain ⟨hrest, halone⟩ := hunmistakable payload posts ⟨slug, sent, hslug, hanswer⟩ hposts
      rcases hchosen with rfl | ⟨hnot, hpayload⟩
      · obtain ⟨-, hmatch⟩ := mem_exactMatches hposts (List.mem_singleton.mpr rfl)
        obtain ⟨link, hlink⟩ := link_of_match hmatch
        exact ⟨hmatch, link, hlink, hrest post link rfl hlink⟩
      · exact absurd hpayload (halone hnot post)
    refine ⟨hsame, fun op key => ?_⟩
    obtain ⟨more, hmore, hids⟩ := change_writes (U := U) site url sent key op
    refine ⟨more, hmore, fun postId hid => ?_⟩
    obtain ⟨post, hok, hpostId⟩ := hids postId hid
    exact ⟨post, hok, hpostId, hsame post hok⟩

end Resolved

/-- A page of the team, which is the only post whose last segment is `about`. -/
def teamPage : Dict := [("id", .int 7), ("link", .str "https://shop.ir/team/about/")]

/-- A site whose only such post it is. -/
def aboutSite : Site
  | _, .lookup _ => .ok (.list [.dict teamPage])
  | _, .update _ _ _ => .ok (.dict teamPage)
  | _, .revisions _ => .ok (.list [.dict [("id", .int 1)]])

/-- A title meant for the page of the blog is written to the page of the team. -/
theorem teamPage_written : ¬OnlyRequested Url.ascii aboutSite "https://shop.ir/blog/about".toList ∧
    Work.updated ((Operation.perform Url.ascii aboutSite "https://shop.ir/blog/about".toList "k"
      (.updateTitle "New title")) []).2 = [.int 7] := by
  refine ⟨fun honly => ?_, by decide +kernel⟩
  have hresolved : (resolvePost Url.ascii aboutSite "https://shop.ir/blog/about".toList []).1 =
      .ok teamPage := by decide +kernel
  have hsame := ((honly []).1 teamPage hresolved).1
  exact absurd hsame (by decide +kernel)

end SeoAgent.SiteAdapters
