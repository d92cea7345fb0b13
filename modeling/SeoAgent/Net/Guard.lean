import SeoAgent.Verified.Asks
import SeoAgent.Verified.Url

/-!
# Requests to addresses a customer chose

`open_public` (`app/net/guard.py`) as a process that asks for lookups, connections and
the exchanges over them. A lookup answers whatever it likes each time, and so does the
other side of an exchange.

`urllib` opens every hop with the handlers it is given. What it and `http.client` make of
a URL when they connect (`target`) is a parameter, and so is `is_global`; a redirect
comes as `http_error_302` hands it over, joined and quoted.
-/

namespace SeoAgent.Net

open SeoAgent.Verified Url

/-! ## What is asked for -/

inductive GuardExc
  | unsafeAddressError (message : String)
  | gaierror
  | osError (message : String)
  | valueError
  | httpError (code : Nat)
  deriving DecidableEq, Repr

inductive GuardOp
  /-- `socket.getaddrinfo`. -/
  | getaddrinfo (host : List Char) (port : Nat)
  /-- `socket.create_connection`. -/
  | createConnection (address : List Char) (port : Nat)
  /-- The handshake, the request and its answer over the connection just made. -/
  | exchange (url : List Char)
  deriving DecidableEq, Repr

/-- How the other side answers a request. -/
inductive Reply
  | answer
  | redirect (code : Nat) (newurl : List Char)
  deriving DecidableEq, Repr

@[reducible] def GuardOp.Res : GuardOp → Type
  | .getaddrinfo _ _ => List (List Char)
  | .createConnection _ _ => Unit
  | .exchange _ => Reply

@[reducible] def guardIface : Interface where
  Op := GuardOp
  Res := GuardOp.Res
  Exn := GuardExc

abbrev GuardProc (α : Type) : Type := Prog guardIface α

abbrev GuardPast : Type := guardIface.Past

/-! ## Addresses -/

section Guard
variable (U : Unicode) (isGlobal : List Char → Option Bool)
  (target : List Char → Option (List Char × Nat))

/-- The address without its zone. -/
def withoutZone (address : List Char) : List Char := address.takeWhile (· ≠ '%')

/-- Raises at the first address of the host that is not public. -/
def checkAddresses (host : List Char) : List (List Char) → Except GuardExc Unit
  | [] => .ok ()
  | address :: rest =>
      match isGlobal (withoutZone address) with
      | none => .error .valueError
      | some false =>
          .error (.unsafeAddressError
            s!"The host {String.ofList host} resolves to a non-public address and will not be fetched.")
      | some true => checkAddresses host rest

def doesNotResolve (host : List Char) : GuardExc :=
  .unsafeAddressError s!"The host {String.ofList host} does not resolve."

def lookup (host : List Char) (port : Nat) : GuardProc (List (List Char)) :=
  tryCatch (Prog.ask (I := guardIface) (.getaddrinfo host port)) fun
    | .gaierror => throw (doesNotResolve host)
    | e => throw e

/-- `resolve_public`. -/
def resolvePublic (host : List Char) (port : Nat) : GuardProc (List (List Char)) := do
  let infos ← lookup host port
  if infos.isEmpty then throw (doesNotResolve host)
  else do
    Prog.ofExcept (checkAddresses isGlobal host infos)
    pure infos.eraseDups

/-- The addresses still to try, after the last error. -/
def tryAddresses (port : Nat) : GuardExc → List (List Char) → GuardProc Unit
  | last, [] => throw last
  | _, address :: rest =>
      tryCatch (Prog.ask (I := guardIface) (.createConnection address port)) fun
        | .osError message => tryAddresses port (.osError message) rest
        | .gaierror => tryAddresses port .gaierror rest
        | e => throw e

/-- `_connect_checked`. -/
def connectChecked (host : List Char) (port : Nat) : GuardProc Unit := do
  let addresses ← resolvePublic isGlobal host port
  tryAddresses port (.osError s!"Could not connect to {String.ofList host}.") addresses

/-! ## URLs -/

def https : List Char := "https".toList

/-- The port that is connected to, `parsed.port or (443 if … else 80)`. -/
def portOr (scheme : List Char) : Option Nat → Nat
  | some (n + 1) => n + 1
  | _ => if scheme = https then 443 else 80

/-- `ensure_public_url`. -/
def ensurePublicUrl (url : List Char) : GuardProc Unit :=
  match urlsplit U url with
  | none => throw .valueError
  | some parsed =>
      if parsed.scheme ≠ "http".toList ∧ parsed.scheme ≠ https then
        throw (.unsafeAddressError "Only http and https addresses can be fetched.")
      else
        match hostname U parsed.netloc, port parsed.netloc with
        | none, _ => throw (.unsafeAddressError "The address has no host.")
        | some _, none => throw .valueError
        | some host, some port => do
            let _ ← resolvePublic isGlobal host (portOr parsed.scheme port)
            pure ()

def withoutWww (host : List Char) : List Char :=
  if "www.".toList.isPrefixOf host then host.drop 4 else host

/-- The host of a netloc in lower case, with no dots at its end and no `www.`. -/
def bareHost (netloc : List Char) : List Char :=
  withoutWww (rstripDots (U.lower ((hostname U netloc).getD [])))

/-- `bare`; `none` for a `ValueError`. -/
def bare (url : List Char) : Option (List Char) :=
  (urlsplit U url).map fun parsed => bareHost U parsed.netloc

/-- `same_site`; `none` for a `ValueError`. -/
def sameSite (first second : List Char) : Option Bool :=
  (bare U first).bind fun host =>
    if host = [] then some false else (bare U second).map fun other => host == other

/-- The scheme of a URL; `none` for a `ValueError`. -/
def schemeOf (url : List Char) : Option (List Char) := (urlsplit U url).map SplitResult.scheme

/-! ## Redirects -/

structure Request where
  fullUrl : List Char
  method : String
  deriving DecidableEq, Repr

/-- What a redirect must not do when it has to stay on the original site. -/
def redirectRefusal (origin newurl : List Char) : Option GuardExc :=
  match sameSite U origin newurl with
  | none => some .valueError
  | some false =>
      some (.unsafeAddressError "The site redirected to a different host; not followed.")
  | some true =>
      match schemeOf U origin, schemeOf U newurl with
      | some first, some second =>
          if first = https ∧ second ≠ https then
            some (.unsafeAddressError "The site redirected from https to http; not followed.")
          else none
      | _, _ => some .valueError

/-- The redirects `HTTPRedirectHandler` follows. -/
def follows (code : Nat) (method : String) : Bool :=
  ([301, 302, 303, 307, 308].contains code && ["GET", "HEAD"].contains method) ||
    ([301, 302, 303].contains code && method == "POST")

/-- `redirect_request`. -/
def redirectRequest (origin : Option (List Char)) (request : Request) (code : Nat)
    (newurl : List Char) : GuardProc Request := do
  ensurePublicUrl U isGlobal newurl
  match origin.bind fun first => redirectRefusal U first newurl with
  | some e => throw e
  | none =>
      if follows code request.method then pure { fullUrl := newurl, method := "GET" }
      else throw (.httpError code)

/-- One hop, and what is done after a redirect. -/
def openHop (origin : Option (List Char)) (request : Request)
    (redirected : Nat → Request → GuardProc Unit) : GuardProc Unit :=
  match target request.fullUrl with
  | none => throw .valueError
  | some (host, port) => do
      connectChecked isGlobal host port
      let reply ← Prog.ask (I := guardIface) (.exchange request.fullUrl)
      match reply with
      | .answer => pure ()
      | .redirect code newurl => do
          let next ← redirectRequest U isGlobal origin request code newurl
          redirected code next

/-- `opener.open`, with the redirects that `urllib` still follows. -/
def openFrom (origin : Option (List Char)) : Nat → Request → GuardProc Unit
  | 0, request => openHop U isGlobal target origin request fun code _ => throw (.httpError code)
  | left + 1, request => openHop U isGlobal target origin request fun _ next => openFrom origin left next

/-- `open_public`. -/
def openPublic (request : Request) (sameHost : Bool) (redirects : Nat) : GuardProc Unit := do
  ensurePublicUrl U isGlobal request.fullUrl
  openFrom U isGlobal target (if sameHost then some request.fullUrl else none) redirects request

end Guard

end SeoAgent.Net
