import BlakTail.Foundation.Address
import BlakTail.Foundation.Table
import BlakTail.Share.Pages

/-!
# The Share Server

One request to a shared folder, from its header text to the reply: the gate decides which
shares the peer sees, the path names a share and something in it, and a handler answers
from the file system or changes it.

Handlers are programs over file calls.  A reply is `none` when the connection is closed
without one.  What `resolve_request` would read for a listing is read by the handler that
sends it, since `PROPFIND` throws the page away; and of the entries of a directory only
those are looked at that are shown.
-/

namespace BlakTail.Share

open Foundation Files

/-! ## Shares and the gate -/

/-- A share, as far as a request depends on it. -/
structure LocalShare where
  label : String
  path : String
  readOnly : Bool := true
  enabled : Bool := true
  deriving DecidableEq

/-- Who may touch the files behind the overlay listener. -/
structure ShareGate where
  enforce : Bool := false
  selfIps : List IpAddr := []
  «local» : Table String Bool := ∅
  callers : Table (IpAddr × String) Bool := ∅

/-- `IpAddr::is_loopback`. -/
def isLoopback : IpAddr → Bool
  | .v4 bits => bits.toNat / 16777216 = 127
  | .v6 bits => bits.toNat = 1

/-- The shares the peer sees, each as it sees it. -/
def ShareGate.view (gate : ShareGate) (peer : Option IpAddr) (shares : List LocalShare) :
    List LocalShare :=
  let enabled := shares.filter fun share => share.enabled
  if !gate.enforce then enabled
  else
    match peer with
    | none => []
    | some peer =>
      let selfPeer := isLoopback peer || gate.selfIps.contains peer
      enabled.filterMap fun share =>
        let writable :=
          if selfPeer then gate.local.lookup share.label
          else gate.callers.lookup (peer, share.label)
        writable.map fun writable => if writable then share else { share with readOnly := true }

/-! ## Requests -/

structure ParsedRequest where
  method : String
  path : String
  depth : Option String := none
  contentLength : Option Nat := none
  destination : Option String := none
  body : List UInt8 := []

/-- A hexadecimal digit, as a byte of text. -/
def hexDigit (byte : UInt8) : Option Nat := IpAddr.digitIn 16 (Char.ofNat byte.toNat)

/-- `u8::from_str_radix` of two bytes: a plus sign may stand first. -/
def hexByte (a b : UInt8) : Option UInt8 :=
  if a = 0x2b then (hexDigit b).map UInt8.ofNat
  else (hexDigit a).bind fun high => (hexDigit b).map fun low => UInt8.ofNat (high * 16 + low)

def percentDecodeBytes : List UInt8 → Option (List UInt8)
  | 0x25 :: a :: b :: rest =>
    (hexByte a b).bind fun byte => (percentDecodeBytes rest).map (byte :: ·)
  | byte :: rest => (percentDecodeBytes rest).map (byte :: ·)
  | [] => some []

def percentDecode (path : String) : Option String :=
  (percentDecodeBytes path.toUTF8.data.toList).bind fun bytes => String.fromUTF8? ⟨⟨bytes⟩⟩

/-- What stands before the first `sep`. -/
def before (sep : Char) (s : String) : String := ((Text.splitOnce sep s).map Prod.fst).getD s

/-- Split at the first `://`. -/
def afterScheme : List Char → Option (List Char)
  | ':' :: '/' :: '/' :: rest => some rest
  | _ :: rest => afterScheme rest
  | [] => none

/-- The path of a `Destination`, which may be a whole URL. -/
def destinationPath (value : String) : Option String :=
  let rooted := (afterScheme value.toList).bind fun rest =>
    if rest.contains '/' then some (String.ofList (rest.dropWhile (· ≠ '/'))) else none
  percentDecode (before '?' (rooted.getD value))

def readHeader (request : ParsedRequest) (line : String) : ParsedRequest :=
  match Text.splitOnce ':' line with
  | none => request
  | some (name, value) =>
    if Text.eqIgnoreAsciiCase name "depth" then
      { request with depth := some (Text.toAsciiLowercase (Text.trim value)) }
    else if Text.eqIgnoreAsciiCase name "content-length" then
      { request with contentLength := Text.parseU64 (Text.trim value) }
    else if Text.eqIgnoreAsciiCase name "destination" then
      { request with destination := destinationPath (Text.trim value) }
    else request

/-- `split_whitespace`. -/
def splitWhitespace (s : String) : List String :=
  ((s.toList.splitOnP Text.isWhitespace).filter (· ≠ [])).map String.ofList

def toAsciiUppercase (s : String) : String :=
  String.ofList (s.toList.map fun c => if Text.isAsciiLowercase c then c.toUpper else c)

/-- The header text before the blank line. -/
def parseRequest (header : String) : Option ParsedRequest :=
  let lines := ((Text.splitChars '\n' header.toList).map String.ofList).map
    (Text.trimEndMatches '\x0d')
  match lines with
  | [] => none
  | first :: rest =>
    match splitWhitespace first with
    | [] => none
    | method :: target =>
      (percentDecode (before '?' (target.headD "/"))).map fun path =>
        (rest.takeWhile (· ≠ "")).foldl readHeader
          { method := toAsciiUppercase method, path := path }

/-! ## Replies -/

inductive Body where
  | text (value : String)
  | bytes (value : List UInt8)
  deriving DecidableEq

def Body.len : Body → Nat
  | text value => Text.byteLen value
  | bytes value => value.length

structure Reply where
  status : Nat
  reason : String
  headers : List (String × String)
  /-- What is sent after the header, if anything. -/
  body : Option Body
  deriving DecidableEq

def writeResponse (status : Nat) (reason : String) (headers : List (String × String))
    (body : Body) (sendBody : Bool) : Reply where
  status := status
  reason := reason
  headers := headers ++ [("Connection", "close")]
  body := if sendBody then some body else none

def writePlainTyped (status : Nat) (reason type : String) (body : Body) (sendBody : Bool) : Reply :=
  writeResponse status reason
    [("Content-Type", type), ("Content-Length", toString body.len), ("Cache-Control", "no-store")]
    body sendBody

def writePlain (status : Nat) (reason body : String) (sendBody : Bool) : Reply :=
  writePlainTyped status reason "text/plain" (.text body) sendBody

def ALLOWED_METHODS : String := "OPTIONS, GET, HEAD, PROPFIND, PUT, MKCOL, DELETE, MOVE"

/-- `413 Payload Too Large` beyond this many bytes. -/
def MAX_PUT_BYTES : Nat := 8 * 1024 * 1024

/-- As many entries of a directory are shown. -/
def MAX_LISTING : Nat := 200

def notFound : Reply := writePlain 404 "Not Found" "not found\n" true

def forbidden : Reply := writePlain 403 "Forbidden" "forbidden\n" true

def readOnlyShare : Reply := writePlain 403 "Forbidden" "read-only\n" true

def tooLarge : Reply := writePlain 413 "Payload Too Large" "file is too large\n" true

def badRequest (body : String) : Reply := writePlain 400 "Bad Request" body true

def parentMissing : Reply := writePlain 409 "Conflict" "parent is missing\n" true

def created : Reply := writePlain 201 "Created" "created\n" true

def noContent : Reply := writePlain 204 "No Content" "" false

/-! ## Paths in a share -/

def shareForPath (shares : List LocalShare) (path : String) : Option LocalShare :=
  (shares.filter fun share => share.enabled).find? fun share =>
    path = "/" ++ share.label || ("/" ++ share.label ++ "/").toList.isPrefixOf path.toList

/-- A component a file path must not have. -/
def badPart (part : String) : Bool := part = "" || part = "." || part = ".."

def afterLabel (share : LocalShare) (urlPath : String) : String :=
  (Text.stripPrefix ("/" ++ share.label) urlPath).getD ""

/-- The target of a `PUT`; `none` is any error. -/
def resolvePutPath (share : LocalShare) (urlPath : String) : Files (Option (List String)) :=
  let rest := Text.trimStartMatches '/' (afterLabel share urlPath)
  if rest = "" || rest.toList.getLast? = some '/' || (parts rest).any badPart then pure none
  else do
    match ← canonicalize (parts share.path) with
    | none => pure none
    | some root =>
      let target := root ++ parts rest
      match ← canonicalize target.dropLast with
      | none => pure none
      | some parent =>
        if !root.isPrefixOf parent then pure none
        else if ← found target then
          match ← canonicalize target with
          | none => pure none
          | some existing => pure (if root.isPrefixOf existing then some target else none)
        else pure (some target)

inductive JailError where
  | bad
  | escape
  | missingParent
  deriving DecidableEq

/-- The target for one child of the share. The share root itself is refused. -/
def childPaths (share : LocalShare) (urlPath : String) : Files (Except JailError (List String)) :=
  let rest := String.ofList (Text.trimMatchesChars (· = '/') (afterLabel share urlPath).toList)
  if rest = "" || (parts rest).any badPart then pure (.error .bad)
  else do
    match ← canonicalize (parts share.path) with
    | none => pure (.error .escape)
    | some root =>
      let target := root ++ parts rest
      if !(← found target.dropLast) then pure (.error .missingParent)
      else
        match ← canonicalize target.dropLast with
        | none => pure (.error .escape)
        | some parent =>
          if !root.isPrefixOf parent then pure (.error .escape)
          else if ← found target then
            match ← canonicalize target with
            | none => pure (.error .escape)
            | some existing =>
              pure (if root.isPrefixOf existing then .ok target else .error .escape)
          else pure (.ok target)

/-! ## Changes -/

def serveMkcol (shares : List LocalShare) (path : String) : Files (Option Reply) :=
  match shareForPath shares path with
  | none => pure (some notFound)
  | some share =>
    if share.readOnly then pure (some readOnlyShare)
    else do
      match ← childPaths share path with
      | .ok target =>
        if ← found target then
          pure (some (writePlain 405 "Method Not Allowed" "already exists\n" true))
        else if ← createDir target then pure (some created)
        else pure none
      | .error .missingParent => pure (some parentMissing)
      | .error _ => pure (some forbidden)

/-- The end of a `DELETE`: a directory only when it is empty. -/
def deleteTarget (target : List String) : Files (Option Reply) := do
  if ← isDir target then
    match ← readDir target with
    | none => pure none
    | some [] => if ← removeDir target then pure (some noContent) else pure none
    | some _ => pure (some (writePlain 403 "Forbidden" "directory is not empty\n" true))
  else if ← removeFile target then pure (some noContent)
  else pure none

def serveDelete (shares : List LocalShare) (path : String) : Files (Option Reply) :=
  match shareForPath shares path with
  | none => pure (some notFound)
  | some share =>
    if share.readOnly then pure (some readOnlyShare)
    else do
      match ← childPaths share path with
      | .error _ => pure (some forbidden)
      | .ok target => if ← found target then deleteTarget target else pure (some notFound)

/-- The end of a `MOVE`: what is at the target goes first. -/
def moveTarget (source target : List String) : Files (Option Reply) := do
  if ← isDir target then pure (some forbidden)
  else if ← found target then
    if ← removeFile target then
      if ← rename source target then pure (some noContent) else pure none
    else pure none
  else if ← rename source target then pure (some created)
  else pure none

def serveMove (shares : List LocalShare) (path : String) (destination : Option String) :
    Files (Option Reply) :=
  match destination with
  | none => pure (some (badRequest "destination required\n"))
  | some destination =>
    match shareForPath shares path with
    | none => pure (some notFound)
    | some share =>
      if share.readOnly then pure (some readOnlyShare)
      else
        match shareForPath shares destination with
        | none => pure (some forbidden)
        | some destShare =>
          if destShare.label ≠ share.label then pure (some forbidden)
          else do
            match ← childPaths share path with
            | .error _ => pure (some forbidden)
            | .ok source =>
              if !(← found source) then pure (some notFound)
              else
                match ← childPaths share destination with
                | .error .missingParent => pure (some parentMissing)
                | .error _ => pure (some forbidden)
                | .ok target => moveTarget source target

/-- `with_extension("blaktail-partial")`: the name an upload is written under. -/
def temporaryPath (target : List String) : List String :=
  match target.getLast? with
  | none => target
  | some name => target.dropLast ++ [(splitAtDot name).1 ++ ".blaktail-partial"]

/-- The end of a `PUT`: written under another name, then renamed. -/
def putTarget (target : List String) (body : List UInt8) : Files (Option Reply) := do
  if ← create (temporaryPath target) body then
    if ← rename (temporaryPath target) target then pure (some created) else pure none
  else pure none

def servePut (shares : List LocalShare) (path : String) (body : List UInt8) :
    Files (Option Reply) :=
  match shareForPath shares path with
  | none => pure (some notFound)
  | some share =>
    if share.readOnly then pure (some readOnlyShare)
    else if MAX_PUT_BYTES < body.length then pure (some tooLarge)
    else do
      match ← resolvePutPath share path with
      | none => pure (some forbidden)
      | some target => putTarget target body

/-! ## Answers -/

inductive ShareResponse where
  | index
  | listing (share : LocalShare) (relative : String) (directory : FilePath)
  | file (path : FilePath) (type : String)
  | notFound
  | forbidden
  deriving DecidableEq

def labelAndRest (trimmed : String) : String × String :=
  match Text.splitOnce '/' trimmed with
  | some (label, rest) => (label, Text.trimStartMatches '/' rest)
  | none => (trimmed, "")

/-- The end of `resolve_request`, for what lies in the share. -/
def resolveWithin (share : LocalShare) (rest : String) (canonical : FilePath) :
    Files ShareResponse := do
  match ← metadata canonical with
  | none => pure .notFound
  | some metadata =>
    if metadata.isDir then pure (.listing share rest canonical)
    else if !metadata.isFile then pure .forbidden
    else pure (.file canonical (contentType rest))

def resolveRequest (shares : List LocalShare) (path : String) : Files ShareResponse :=
  let trimmed := Text.trimStartMatches '/' path
  if trimmed = "" then pure .index
  else
    let (label, rest) := labelAndRest trimmed
    match shares.find? fun share => share.enabled && share.label = label with
    | none => pure .notFound
    | some share => do
      match ← canonicalize (parts share.path) with
      | none => pure .notFound
      | some root =>
        if hasNul rest || (parts rest).contains ".." then pure .forbidden
        else
          match ← canonicalize (if rest = "" then root else root ++ parts rest) with
          | none => pure .notFound
          | some canonical =>
            if !root.isPrefixOf canonical then pure .forbidden
            else resolveWithin share rest canonical

/-- The names a listing shows: not hidden, in order, up to `MAX_LISTING`. -/
def visibleNames (names : List String) : List String :=
  ((names.filter fun name => name.toList.head? ≠ some '.').insertionSort (· ≤ ·)).take MAX_LISTING

/-- An entry of a directory, with what `is_dir` says of it. -/
def dirEntry (directory : FilePath) (name : String) : Files DirEntry := do
  let isDir ← isDir (directory ++ [name])
  return { name := name, isDir := isDir, path := directory ++ [name] }

def listVisibleEntries (directory : FilePath) : Files (List DirEntry) := do
  let names ← readDir directory
  Prog.each (dirEntry directory) (visibleNames (names.getD []))

def serveGet (shares : List LocalShare) (path : String) (head : Bool) : Files (Option Reply) := do
  match ← resolveRequest shares path with
  | .index =>
    let labels := (shares.filter fun share => share.enabled).map LocalShare.label
    return some (writePlainTyped 200 "OK" "text/html; charset=utf-8" (.text (indexPage labels))
      (!head))
  | .listing share relative directory =>
    let entries ← listVisibleEntries directory
    return some (writePlainTyped 200 "OK" "text/html; charset=utf-8"
      (.text (listingPage share.label relative entries)) (!head))
  | .file path type =>
    if head then
      let metadata ← metadata path
      return metadata.map fun metadata => writeResponse 200 "OK"
        [("Content-Type", type), ("Content-Length", toString metadata.len),
          ("Cache-Control", "no-store")] (.text "") false
    else
      let bytes ← read path
      return bytes.map fun bytes => writePlainTyped 200 "OK" type (.bytes bytes) true
  | .notFound => return some (writePlain 404 "Not Found" "not found\n" (!head))
  | .forbidden => return some (writePlain 403 "Forbidden" "forbidden\n" (!head))

/-- One share in the WebDAV document of the index. -/
def davShare (share : LocalShare) : Files String := do
  let metadata ← metadata (parts share.path)
  return davCollection ("/" ++ share.label ++ "/") share.label metadata

/-- One entry in the WebDAV document of a directory. -/
def davEntry (href : String) (entry : DirEntry) : Files String := do
  let metadata ← metadata entry.path
  if entry.isDir then
    return davCollection (href ++ entry.name ++ "/") entry.name metadata
  else
    return davFile (href ++ entry.name) entry.name (contentType entry.name) metadata

def davShares (shares : List LocalShare) (depth : Nat) : Files (List String) :=
  if 0 < depth then Prog.each davShare (shares.filter fun share => share.enabled) else pure []

def davEntries (href : String) (directory : FilePath) (depth : Nat) : Files (List String) :=
  if 0 < depth then listVisibleEntries directory >>= Prog.each (davEntry href) else pure []

/-- The WebDAV document of a path; `Except` holds the reply if there is none. -/
def davDocument (shares : List LocalShare) (path : String) (depth : Nat) :
    Files (Except Reply String) := do
  match ← resolveRequest shares path with
  | .index =>
    let entries ← davShares shares depth
    return .ok (davHeader ++ davCollection "/" "BlakTail shares" none ++ Text.join "" entries ++
      davFooter)
  | .listing share relative directory =>
    let href := collectionHref share.label relative
    let display := if relative = "" then share.label else (fileName relative).getD share.label
    let metadata ← metadata directory
    let entries ← davEntries href directory depth
    return .ok (davHeader ++ davCollection href display metadata ++ Text.join "" entries ++
      davFooter)
  | .file file type =>
    let metadata ← metadata file
    let href := if path.toList.head? = some '/' then path else "/" ++ path
    return .ok (davHeader ++ davFile (Text.trimEndMatches '/' href) (file.getLast?.getD "file") type
      metadata ++ davFooter)
  | .notFound => return .error Share.notFound
  | .forbidden => return .error Share.forbidden

/-- The depth of a `PROPFIND`, or the reply that refuses it. -/
def propfindDepth (depth : Option String) : Except Reply Nat :=
  match depth.getD "1" with
  | "0" => .ok 0
  | "1" => .ok 1
  | "infinity" =>
    .error (writeResponse 403 "Forbidden"
      [("DAV", "1"), ("Allow", ALLOWED_METHODS), ("Content-Type", "text/plain"),
        ("Content-Length", "32")] (.text "depth infinity is not supported\n") true)
  | _ => .error (badRequest "invalid depth\n")

def davReply : Except Reply String → Reply
  | .error reply => reply
  | .ok xml =>
    writeResponse 207 "Multi-Status"
      [("DAV", "1"), ("Content-Type", "text/xml; charset=\"utf-8\""),
        ("Content-Length", toString (Text.byteLen xml))] (.text xml) true

def servePropfind (shares : List LocalShare) (path : String) (depth : Option String) :
    Files (Option Reply) :=
  match propfindDepth depth with
  | .error reply => pure (some reply)
  | .ok depth => do
    let document ← davDocument shares path depth
    return some (davReply document)

/-! ## The connection -/

def serve (shares : List LocalShare) (request : ParsedRequest) : Files (Option Reply) :=
  match request.method with
  | "OPTIONS" =>
    pure (some (writeResponse 200 "OK"
      [("DAV", "1"), ("Allow", ALLOWED_METHODS), ("MS-Author-Via", "DAV"), ("Content-Length", "0")]
      (.text "") false))
  | "GET" => serveGet shares request.path false
  | "HEAD" => serveGet shares request.path true
  | "PROPFIND" => servePropfind shares request.path request.depth
  | "PUT" => servePut shares request.path request.body
  | "MKCOL" => serveMkcol shares request.path
  | "DELETE" => serveDelete shares request.path
  | "MOVE" => serveMove shares request.path request.destination
  | "POST" | "COPY" | "PROPPATCH" | "LOCK" | "UNLOCK" =>
    pure (some (writeResponse 403 "Forbidden"
      [("Allow", ALLOWED_METHODS), ("DAV", "1"), ("Content-Type", "text/plain"),
        ("Content-Length", "10")] (.text "read-only\n") true))
  | _ => pure (some (writePlain 405 "Method Not Allowed" "method not allowed\n" true))

/-- `handle_client`: the header text before the blank line, the bytes that came with it and
those that come later.  Only a `Content-Length` makes the server wait for more. -/
def handleClient (gate : ShareGate) (peer : Option IpAddr) (shares : List LocalShare)
    (header : String) (early late : List UInt8) : Files (Option Reply) :=
  let shares := gate.view peer shares
  match parseRequest header with
  | none => pure (some (badRequest "bad request\n"))
  | some request =>
    if gate.enforce && shares.isEmpty then pure (some forbidden)
    else
      match request.contentLength with
      | none => serve shares { request with body := early }
      | some needed =>
        if MAX_PUT_BYTES < needed then pure (some tooLarge)
        else serve shares { request with body := (early ++ late).take needed }

end BlakTail.Share
