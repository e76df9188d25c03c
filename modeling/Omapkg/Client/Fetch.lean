import Omapkg.Client.State
import Omapkg.Client.Url
/-!
# Signed documents

How the client fetches a document, checks that its bytes are canonical and
verifies its detached signature. What the network, the clock and `gpg` answer
is an input: each answer has a place in the run of its caller, so that two
requests for one URL may be answered apart.
-/

namespace Omapkg.Client

open Utf

/-! ## The environment -/

structure Response where
  statusCode : Nat
  contentLength : Int
  body : Except GoError Bytes

/-- A run of `gpg --verify`: its status lines and whether it succeeded. -/
structure GpgRun where
  output : String
  success : Bool

/-- The redirects a discovery follows, and what stands at their end. -/
structure Discovery where
  redirects : List String
  response : Response

/-- A run of `pacman`: what it prints and whether it succeeded. -/
structure PacmanRun where
  output : Bytes
  success : Bool

/-- What one run of the client sees of the world. -/
structure Env where
  get : Nat → String → Except GoError Response
  discover : Nat → String → Except GoError Discovery
  gpg : Nat → Bytes → Bytes → Except GoError GpgRun
  pacman : String → Option Bytes → List String → PacmanRun
  now : Nat → Int

/-- The settings of a client. -/
structure ManifestClient where
  fingerprint : String
  allowHTTP : Bool
  architecture : String
  rootSignatureUrl : String
  expectedChannel : String
  discoveryOrigin : String

def maxManifestBytes : Nat := 4194304

def maxSignatureBytes : Nat := 2097152

/-! ## Origins -/

/-- `strings.EqualFold` of hosts. -/
def equalFold (s t : List Char) : Bool := s.map Char.toLower = t.map Char.toLower

section
variable (literal : List Char → Option (List Char))

/-- What `net/url` says of a text that is no URL is left out. -/
def urlError (raw : String) : GoError := .errorf "parse %q" [raw]

def validateSameOrigin (base candidate : String) : Except GoError Unit :=
  match urlParse literal (goBytes base), urlParse literal (goBytes candidate) with
  | none, _ => .error (urlError base)
  | some _, none => .error (urlError candidate)
  | some left, some right =>
    if left.scheme ≠ right.scheme ∨ equalFold left.host right.host = false then
      .error (.errorf "URL %q is outside manifest origin" [candidate])
    else .ok ()

/-! ## Fetching -/

/-- Whether a document came over plain HTTP. -/
def isPlainHTTP (url : String) : Bool := "http://".toList.isPrefixOf url.toList

def fetch (client : ManifestClient) (env : Env) (place : Nat) (rawUrl : String) (limit : Nat) : Except GoError Bytes := do
  validateURL literal rawUrl client.allowHTTP
  let response ← env.get place rawUrl
  if response.statusCode ≠ 200 then .error (.errorf "GET %s returned HTTP %d" [rawUrl, toString response.statusCode])
  else if response.contentLength > limit then .error (.errorf "GET %s exceeds size limit" [rawUrl])
  else
    let data ← response.body
    if data.length > limit then .error (.errorf "GET %s exceeds size limit" [rawUrl]) else .ok data

/-! ## Signatures -/

structure SignatureInfo where
  url : String
  sha256 : String

/-- Where a manifest says its signature is, and its digest. -/
def signatureInfo (object : Object) (documentUrl : String) : SignatureInfo :=
  let signature := (objectField object "signature").getD []
  let url := stringAtOr object "signatureUrl" "signatureURL"
  let url := if url = "" then stringAt signature "url" else url
  let sha256 := stringAt signature "sha256"
  { url := if url = "" then documentUrl ++ ".sig" else url
    sha256 := if sha256 = "" then stringAt object "signatureSha256" else sha256 }

def lowerText (s : String) : String := String.ofList (s.toList.map Char.toLower)

def upperText (s : String) : String := String.ofList (s.toList.map Char.toUpper)

def signatureInfoFromObject (object : Object) (documentUrl : String) : Except GoError SignatureInfo := do
  let info := signatureInfo object documentUrl
  if info.sha256 ≠ "" ∧ isSha256 (lowerText info.sha256) = false then
    .error (.new "manifest signature digest is invalid")
  else
    validateURL literal info.url (isPlainHTTP documentUrl)
    validateSameOrigin literal documentUrl info.url
    .ok info

/-- The fields of a status line. -/
def statusFields (line : List Char) : List (List Char) := (line.splitOnP fun c => c = '\n' || isGoSpace c).filter (· ≠ [])

def rejectedStatus (line : List Char) : Bool :=
  ["[GNUPG:] REVKEYSIG ", "[GNUPG:] EXPKEYSIG ", "[GNUPG:] EXPSIG ", "[GNUPG:] BADSIG "].any fun status =>
    status.toList.isPrefixOf line

/-- The fingerprint of the one valid signature among status lines, `""` if
there is none. -/
def validSignature (found : String) : List (List Char) → Except GoError String
  | [] => .ok found
  | line :: lines =>
    if rejectedStatus line then
      .error (.new "manifest OpenPGP signature uses a revoked, expired, or bad key")
    else if "[GNUPG:] VALIDSIG ".toList.isPrefixOf line = false then validSignature found lines
    else
      match statusFields line with
      | _ :: _ :: fingerprint :: _ =>
        if found ≠ "" then .error (.new "manifest OpenPGP signature contains multiple valid signatures")
        else validSignature (upperText (String.ofList fingerprint)) lines
      | _ => .error (.new "manifest OpenPGP signature has incomplete VALIDSIG status")

def verifyOpenPGP (client : ManifestClient) (env : Env) (place : Nat) (message signature : Bytes) : Except GoError Unit := do
  let run ← env.gpg place message signature
  if run.success = false then .error (.errorf "manifest OpenPGP signature is invalid: %w" [])
  else
    let found ← validSignature "" (run.output.toList.splitOn '\n')
    if found = "" ∨ found ≠ upperText client.fingerprint then
      .error (.new "manifest OpenPGP signature fingerprint is not the pinned key")
    else .ok ()

/-! ## Documents -/

section
variable (sha256 : Bytes → Hash.Digest) (client : ManifestClient) (env : Env)

/-- The URL of the signature: the one a reference names, once it is checked,
else the manifest's own. -/
def checkSignatureUrl (documentUrl expectedSignatureUrl : String) (info : SignatureInfo) : Except GoError String :=
  if expectedSignatureUrl = "" then .ok info.url
  else if mutableURL literal expectedSignatureUrl then .error (.new "manifest signature URL is mutable")
  else do
    validateURL literal expectedSignatureUrl client.allowHTTP
    validateSameOrigin literal documentUrl expectedSignatureUrl
    .ok expectedSignatureUrl

def fetchSignedAt (place : Nat) (documentUrl expectedSignatureUrl : String) (limit : Nat) :
    Except GoError RawManifest := do
  if mutableURL literal documentUrl then .error (.new "signed manifest URL is a mutable channel pointer")
  else
    validateURL literal documentUrl client.allowHTTP
    let raw ← fetch literal client env place documentUrl limit
    let (canonical, object) ← canonicalDocument raw
    if raw ≠ canonical then .error (.new "signed manifest is not canonical JSON")
    else
      let info ← signatureInfoFromObject literal object documentUrl
      let signatureUrl ← checkSignatureUrl literal client documentUrl expectedSignatureUrl info
      let signature ← (fetch literal client env (place + 1) signatureUrl maxSignatureBytes).mapError
        (.wrap "fetch manifest signature")
      if info.sha256 ≠ "" ∧ sha256Hex sha256 signature ≠ lowerText info.sha256 then
        .error (.new "manifest signature digest mismatch")
      else
        verifyOpenPGP client env place canonical signature
        .ok
          { object := object
            document := { raw := raw, canonical := canonical, digest := sha256Hex sha256 canonical }
            signature := signature
            signatureUrl := signatureUrl }

end

end

end Omapkg.Client
