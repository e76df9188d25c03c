import Omapkg.Client.Resolve
/-!
# Discovering a manifest

A channel's pointer moves; `discoverReference` follows it to a manifest that
does not, and `resolveRequestedRef` chooses between a manifest and a pointer.
-/

namespace Omapkg.Client

open Utf Json

structure DiscoveryReference where
  manifestUrl : String
  signatureUrl : String
  deriving DecidableEq

/-- The string of a URL's bytes. -/
def goString (bytes : List Char) : String := String.ofList (decode (bytes.map fun c => UInt8.ofNat c.toNat))

/-- `^[A-Za-z0-9][A-Za-z0-9._-]{0,127}$`. -/
def isReleaseId (s : String) : Bool :=
  match s.toList with
  | [] => false
  | c :: cs => isDigitOrLetter c && cs.length ≤ 127 && cs.all fun d => isDigitOrLetter d || "._-".toList.contains d

section
variable (literal : List Char → Option (List Char)) (client : ManifestClient) (env : Env)

/-- The checks of each redirect; `made` requests came before it. -/
def checkRedirects (discoveryUrl : String) (made : Nat) : List String → Except GoError Unit
  | [] => .ok ()
  | url :: rest => do
    if made ≥ 3 then .error (.new "channel discovery redirected too many times")
    else
      validateDiscoveryURL literal url client.allowHTTP
      validateSameOrigin literal discoveryUrl url
      checkRedirects discoveryUrl (made + 1) rest

/-- The reference of a target a discovery document names. -/
def discoveredTarget (discoveryUrl target signatureUrl : String) : Except GoError DiscoveryReference := do
  validateSameOrigin literal discoveryUrl target
  if mutableURL literal target then .error (.new "discovery manifest URL is mutable")
  else .ok ⟨target, signatureUrl⟩

/-- The object of a discovery document. -/
def discoveryObject (body : Except GoError Bytes) : Except GoError Object :=
  match body with
  | .error _ => .error (.new "channel discovery response is too large")
  | .ok data =>
    if data.length > maxManifestBytes then .error (.new "channel discovery response is too large")
    else
      match parse maxNestingDepth (decode data) with
      | some (.obj ms, _) => .ok (goMembers [] ms)
      | _ => .error (.new "channel discovery response is invalid JSON")

/-- The transaction of a channel's pointer, by its channel and release id. -/
def derivedTarget (base : GoUrl) (object : Object) : Except GoError DiscoveryReference :=
  let releaseId := stringAt object "releaseId"
  let channel := stringAt object "channel"
  if stringField object "releaseId" = none ∨ stringField object "kind" ≠ some "resolved-transaction" ∨
      isReleaseId releaseId = false then
    .error (.new "discovery response has no immutable transaction reference")
  else if client.expectedChannel ≠ "" ∧ channel ≠ client.expectedChannel then
    .error (.errorf "discovery channel %q does not match expected channel %q" [channel, client.expectedChannel])
  else
    let channel := if channel = "" then client.expectedChannel else channel
    if isChannel channel = false then .error (.new "discovery response has no valid transaction channel")
    else
      let target := goString base.scheme ++ "://" ++ goString base.host ++ "/repo/transactions/" ++ channel ++ "/" ++
        releaseId ++ "/manifest.json"
      if mutableURL literal target then .error (.new "derived discovery URL is mutable") else .ok ⟨target, ""⟩

def discoverReference (place : Nat) (discoveryUrl : String) : Except GoError DiscoveryReference := do
  validateDiscoveryURL literal discoveryUrl client.allowHTTP
  match urlParse literal (goBytes discoveryUrl) with
  | none => .error (urlError discoveryUrl)
  | some base =>
    let discovery ← env.discover place discoveryUrl
    checkRedirects literal client discoveryUrl 1 discovery.redirects
    match discovery.redirects.getLast? with
    | some finalUrl =>
      if mutableURL literal finalUrl then
        .error (.new "channel discovery did not resolve to an immutable manifest")
      else .ok ⟨finalUrl, ""⟩
    | none =>
      if discovery.response.statusCode ≠ 200 then
        .error (.errorf "channel discovery returned HTTP %d" [toString discovery.response.statusCode])
      else
        let object ← discoveryObject discovery.response.body
        match stringField object "channel" with
        | some channel =>
          if client.expectedChannel ≠ "" ∧ channel ≠ client.expectedChannel then
            .error (.errorf "discovery channel %q does not match expected channel %q"
              [channel, client.expectedChannel])
          else .ok ()
        | none => .ok ()
        match stringField object "manifestUrl", stringField object "manifestURL" with
        | some target, _ => discoveredTarget literal discoveryUrl target (stringAt object "signatureUrl")
        | none, some target => discoveredTarget literal discoveryUrl target (stringAt object "signatureURL")
        | none, none => derivedTarget literal client base object

/-- The first of the built-in pointers that leads to a manifest. -/
def discoverFirst (place : Nat) (last : Option GoError) : List String → Except GoError DiscoveryReference
  | [] =>
    match last with
    | some e => .error (.wrap "channel discovery failed" e)
    | none => .error (.new "an immutable manifest or channel discovery URL is required")
  | candidate :: rest =>
    match discoverReference literal client env place candidate with
    | .ok ref => .ok ref
    | .error e => discoverFirst (place + 1) (some e) rest

/-- The pointers of a channel at the client's origin. -/
def builtinPointers : List String :=
  ["/repo/channels/" ++ client.expectedChannel ++ "/manifest.json",
    "/repo/channels/" ++ client.expectedChannel ++ "/transaction.json",
    "/repo/transactions/" ++ client.expectedChannel ++ "/manifest.json",
    "/repo/transactions/" ++ client.expectedChannel ++ "/transaction.json",
    "/repo/transactions/" ++ client.expectedChannel ++ "/current/manifest.json",
    "/repo/transactions/current/manifest.json"].map (client.discoveryOrigin ++ ·)

def resolveRequestedRef (manifestUrl discoveryUrl : String) : Except GoError DiscoveryReference := do
  let target := if manifestUrl = "" then discoveryUrl else manifestUrl
  if target = "" ∧ client.discoveryOrigin ≠ "" then
    if client.expectedChannel = "" then .error (.new "channel is required for origin discovery")
    else discoverFirst literal client env 0 none (builtinPointers client)
  else if target = "" then .error (.new "an immutable manifest or channel discovery URL is required")
  else if mutableURL literal target then discoverReference literal client env 0 target
  else
    validateURL literal target client.allowHTTP
    .ok ⟨target, client.rootSignatureUrl⟩

end

end Omapkg.Client
