import BlakTail.Foundation.FileCalls

/-!
# The Pages of a Shared Folder

The texts the share server sends: the index of shares, the listing of a directory, and the
WebDAV documents with the kind, length and date of each entry.
-/

namespace BlakTail.Share

open Foundation

/-! ## Names -/

/-- `Path::file_name`: the last component, unless it goes up. -/
def fileName (path : String) : Option String :=
  ((parts path).filter fun part => part ≠ "" && part ≠ ".").getLast?.filter (· ≠ "..")

/-- A file name around its last dot: stem and extension.  A leading dot alone starts no
extension. -/
def splitAtDot (name : String) : String × Option String :=
  match Text.rsplitOnceChars '.' name.toList with
  | some ([], _) | none => (name, none)
  | some (stem, ext) => (String.ofList stem, some (String.ofList ext))

def contentType (name : String) : String :=
  match Text.toAsciiLowercase (((fileName name).bind fun file => (splitAtDot file).2).getD "") with
  | "html" | "htm" => "text/html; charset=utf-8"
  | "txt" | "md" | "csv" => "text/plain; charset=utf-8"
  | "json" => "application/json"
  | "pdf" => "application/pdf"
  | "png" => "image/png"
  | "jpg" | "jpeg" => "image/jpeg"
  | "gif" => "image/gif"
  | "svg" => "image/svg+xml"
  | _ => "application/octet-stream"

/-! ## Escaping -/

def escapeChar (c : Char) : String :=
  if c = '&' then "&amp;"
  else if c = '<' then "&lt;"
  else if c = '>' then "&gt;"
  else if c = '"' then "&quot;"
  else if c = Char.ofNat 39 then "&apos;"
  else String.ofList [c]

/-- `escape_xml`.  The replacements follow each other in the source; none of them makes
text that a later one replaces. -/
def escapeXml (value : String) : String := Text.join "" (value.toList.map escapeChar)

/-- The characters a link may hold as they are. -/
def unreserved (c : Char) : Bool :=
  Text.isAsciiAlphabetic c || Text.isAsciiDigit c || c = '-' || c = '.' || c = '_' || c = '~' ||
    c = '/'

def encodeByte (byte : UInt8) : String :=
  let c := Char.ofNat byte.toNat
  if unreserved c then String.ofList [c]
  else "%" ++ String.ofList ((Text.hexPadded 2 byte.toNat).toList.map Char.toUpper)

def hrefEncode (path : String) : String := Text.join "" (path.toUTF8.data.toList.map encodeByte)

/-! ## Dates -/

/-- Decimal with at least two digits. -/
def twoDigits (n : Nat) : String := if n < 10 then "0" ++ toString n else toString n

/-- Year, month and day of a day counted from the epoch; the year is an `i32`.  Days are not
negative here, so the source's other branch for the era is left out. -/
def civilFromUnixDays (days : Nat) : Int × Nat × Nat :=
  let z := days + 719468
  let era := z / 146097
  let doe := z - era * 146097
  let yoe := (doe - doe / 1460 + doe / 36524 - doe / 146096) / 365
  let y := yoe + era * 400
  let doy := doe - (365 * yoe + yoe / 4 - yoe / 100)
  let mp := (5 * doy + 2) / 153
  let d := doy - (153 * mp + 2) / 5 + 1
  let m := if mp < 10 then mp + 3 else mp - 9
  let y := if m ≤ 2 then y + 1 else y
  (Int.bmod y (2 ^ 32), m, d)

def httpDateSecs (secs : Nat) : String :=
  let weekdays := ["Thu", "Fri", "Sat", "Sun", "Mon", "Tue", "Wed"]
  let months :=
    ["Jan", "Feb", "Mar", "Apr", "May", "Jun", "Jul", "Aug", "Sep", "Oct", "Nov", "Dec"]
  let days := secs / 86400
  let tod := secs % 86400
  let (year, month, day) := civilFromUnixDays days
  weekdays.getD (days % 7) "" ++ ", " ++ twoDigits day ++ " " ++
    months.getD (month - 1) "" ++ " " ++
    toString year ++ " " ++ twoDigits (tod / 3600) ++ ":" ++ twoDigits (tod % 3600 / 60) ++ ":" ++
      twoDigits (tod % 60) ++ " GMT"

example : httpDateSecs 784111777 = "Sun, 06 Nov 1994 08:49:37 GMT" := by decide +kernel

/-! ## Pages -/

structure DirEntry where
  name : String
  isDir : Bool
  path : List String
  deriving DecidableEq

def collectionHref (label relative : String) : String :=
  if relative = "" then "/" ++ label ++ "/"
  else "/" ++ label ++ "/" ++ Text.trimEndMatches '/' relative ++ "/"

def indexPage (labels : List String) : String :=
  "<!doctype html><html lang=\"en\"><head><meta charset=\"utf-8\"><title>BlakTail shares</title></head><body><h1>BlakTail shares</h1><ul>" ++
    Text.join "" (labels.map fun label =>
      "<li><a href=\"/" ++ escapeXml label ++ "/\">" ++ escapeXml label ++ "/</a></li>") ++
    "</ul></body></html>\n"

def listingPage (label relative : String) (entries : List DirEntry) : String :=
  let lead := collectionHref label relative
  "<!doctype html><html lang=\"en\"><head><meta charset=\"utf-8\"><title>" ++ escapeXml label ++
    "</title></head><body><h1>" ++ escapeXml lead ++ "</h1><ul>" ++
    (if relative = "" then ""
      else "<li><a href=\"/" ++ escapeXml label ++ "/\">../</a></li>") ++
    Text.join "" (entries.map fun entry =>
      let suffix := if entry.isDir then "/" else ""
      "<li><a href=\"" ++ escapeXml lead ++ escapeXml entry.name ++ suffix ++ "\">" ++
        escapeXml entry.name ++ suffix ++ "</a></li>") ++
    "</ul></body></html>\n"

def davHeader : String :=
  "<?xml version=\"1.0\" encoding=\"utf-8\"?>\n<D:multistatus xmlns:D=\"DAV:\">"

def davFooter : String := "</D:multistatus>\n"

def davMtime : Option Metadata → String
  | none => ""
  | some metadata =>
    "<D:getlastmodified>" ++ httpDateSecs metadata.modified ++ "</D:getlastmodified>"

def davCollection (href display : String) (metadata : Option Metadata) : String :=
  "<D:response><D:href>" ++ escapeXml (hrefEncode href) ++
    "</D:href><D:propstat><D:prop><D:resourcetype><D:collection/></D:resourcetype><D:displayname>" ++
    escapeXml display ++ "</D:displayname>" ++ davMtime metadata ++
    "</D:prop><D:status>HTTP/1.1 200 OK</D:status></D:propstat></D:response>"

def davFile (href display type : String) (metadata : Option Metadata) : String :=
  "<D:response><D:href>" ++ escapeXml (hrefEncode href) ++
    "</D:href><D:propstat><D:prop><D:resourcetype/><D:displayname>" ++ escapeXml display ++
    "</D:displayname><D:getcontentlength>" ++ toString ((metadata.map Metadata.len).getD 0) ++
    "</D:getcontentlength><D:getcontenttype>" ++ escapeXml type ++ "</D:getcontenttype>" ++
    davMtime metadata ++
    "</D:prop><D:status>HTTP/1.1 200 OK</D:status></D:propstat></D:response>"

end BlakTail.Share
