import UrlRebase.Text.Quoted
import UrlRebase.Url.Address

/-!
# URLs

A URL has a scheme, an authority, a path with parameters, a query and a fragment, each of
which may be empty.  `split` cuts a text into these parts, `print` writes them, and `join`
takes a reference relative to a base.

Tabs and line breaks anywhere in a URL and blanks and control characters in front of it
do not count.  Only some schemes have parameters, an authority or relative references.
-/

namespace UrlRebase

/-- The parts of a URL without the marks between them. -/
structure Url where
  scheme : Text
  authority : Text
  path : Text
  params : Text
  query : Text
  fragment : Text
deriving DecidableEq, Repr

namespace Url

/-- Why a text is no URL. -/
inductive Error where
  /-- The authority has a bracket without its partner. -/
  | unbalanced
  /-- The text in brackets is no address. -/
  | notAddress (host : Text)
  /-- The address in brackets is one of version 4. -/
  | version4
  /-- The address in brackets is of a later version and malformed. -/
  | future
  /-- The authority has a character that looks like a mark between parts. -/
  | confusable (authority : Text)
deriving Repr

def Error.message : Error → Text
  | .unbalanced => "Invalid IPv6 URL".text
  | .notAddress host =>
      Text.literal host ++ " does not appear to be an IPv4 or IPv6 address".text
  | .version4 => "An IPv4 address cannot be in brackets".text
  | .future => "IPvFuture address is invalid".text
  | .confusable authority =>
      "netloc '".text ++ authority ++
        "' contains invalid characters under NFKC normalization".text

/-- The schemes whose references may be relative. -/
def relativeSchemes : List Text :=
  ["", "ftp", "http", "gopher", "nntp", "imap", "wais", "file", "https", "shttp", "mms",
    "prospero", "rtsp", "rtspu", "sftp", "svn", "svn+ssh", "ws", "wss"].map
    String.text

def authoritySchemes : List Text :=
  ["", "ftp", "http", "gopher", "nntp", "telnet", "imap", "wais", "file", "mms", "https",
    "shttp", "snews", "prospero", "rtsp", "rtspu", "rsync", "svn", "svn+ssh",
    "sftp", "nfs", "git", "git+ssh", "ws", "wss"].map String.text

def paramSchemes : List Text :=
  ["", "ftp", "hdl", "prospero", "http", "imap", "https", "shttp", "rtsp",
    "rtspu", "sip", "sips", "mms", "sftp", "tel"].map String.text

def isSchemeChar (c : CodePoint) : Bool :=
  c.isAlphanum || c = '+' || c = '-' || c = '.'

/-- Characters that look like one of the marks between the parts of a URL. -/
def confusables : List Nat :=
  [0x2047, 0x2048, 0x2049, 0x2100, 0x2101, 0x2105, 0x2106, 0x2A74, 0xFE13, 0xFE16, 0xFE55,
    0xFE56, 0xFE5F, 0xFE6B, 0xFF03, 0xFF0F, 0xFF1A, 0xFF1F, 0xFF20]

/-- The text without what does not count in a URL. -/
def clean (text : Text) : Text :=
  (text.dropWhile fun c => c.toNat ≤ 0x20).filter
    fun c => !(c = '\t' || c = '\r' || c = '\n')

def splitScheme? (text : Text) : Option (Text × Text) :=
  match text.cut ':' with
  | (c :: name, _ :: rest) =>
      if c.isAlpha && name.all isSchemeChar then some ((c :: name).map CodePoint.toLower, rest)
      else none
  | _ => none

def checkHost (host : Text) : Except Error Unit :=
  if host.head? = some (.char 'v') then
    if Address.isFuture host then .ok () else .error .future
  else if Address.isVersion4 host then .error .version4
  else if Address.isVersion6 host then .ok ()
  else .error (.notAddress host)

/-- The host of an authority with brackets, behind the user and before the port.  Nothing
stands between the brackets and these. -/
def bracketedHost (authority : Text) : Except Error Text :=
  let place := ((Text.cutLast? '@' authority).map Prod.snd).getD authority
  match Text.cut '[' place with
  | (before, _ :: inside) =>
      let (host, behind) := Text.cut ']' inside
      let port := behind.drop 1
      if before ≠ [] ∨ (port ≠ [] ∧ port.head? ≠ some (.char ':')) then .error .unbalanced
      else .ok host
  | (place, []) => .ok (Text.cut ':' place).1

def checkBrackets (authority : Text) : Except Error Unit := do
  let opens := authority.contains '['
  let closes := authority.contains ']'
  if opens ≠ closes then throw .unbalanced
  if opens then checkHost (← bracketedHost authority)

def checkAuthority (authority : Text) : Except Error Unit := do
  checkBrackets authority
  if authority.any fun c => confusables.contains c.toNat then throw (.confusable authority)

/-- The path before the parameters of its last segment, and the parameters. -/
def splitParams (path : Text) : Text × Text :=
  let last := (path.reverse.takeWhile (· ≠ .char '/')).reverse
  let before := (path.reverse.dropWhile (· ≠ .char '/')).reverse
  let (name, params) := Text.cut ';' last
  (before ++ name, params.drop 1)

/-- The parts of a text, a default standing in for an absent scheme. -/
def split (scheme text : Text) : Except Error Url := do
  let (scheme, rest) := (splitScheme? (clean text)).getD (scheme, clean text)
  let (authority, rest) :=
    match rest with
    | '/' :: '/' :: rest =>
        (rest.takeWhile fun c => !(c = '/' || c = '?' || c = '#'),
          rest.dropWhile fun c => !(c = '/' || c = '?' || c = '#'))
    | rest => ([], rest)
  checkAuthority authority
  let (rest, fragment) := Text.cut '#' rest
  let (path, query) := Text.cut '?' rest
  let (path, params) := if paramSchemes.contains scheme then splitParams path else (path, [])
  return ⟨scheme, authority, path, params, query.drop 1, fragment.drop 1⟩

/-- A part behind its mark, or nothing if it is empty. -/
def marked (mark : CodePoint) (part : Text) : Text :=
  if part = [] then [] else mark :: part

def print (url : Url) : Text :=
  let path := url.path ++ marked ';' url.params
  let hasAuthority :=
    url.authority ≠ [] ∨ (url.scheme ≠ [] ∧ authoritySchemes.contains url.scheme) ∨
      "//".text.isPrefixOf path
  let place :=
    if hasAuthority then
      "//".text ++ url.authority ++
        (if path ≠ [] ∧ path.head? ≠ some (.char '/') then "/".text else []) ++ path
    else path
  let place := if url.scheme = [] then place else url.scheme ++ ":".text ++ place
  place ++ marked '?' url.query ++ marked '#' url.fragment

/-- Goes through the segments of a path; an upward segment takes back the last one. -/
def walk (segments : List Text) : List Text :=
  segments.foldl
    (fun kept segment =>
      if segment = "..".text then kept.dropLast
      else if segment = ".".text then kept
      else kept ++ [segment])
    []

/-- The path of a reference taken relative to the path of a base. -/
def joinPath (base path : Text) : Text :=
  let segments :=
    if path.head? = some (.char '/') then Text.fields '/' path
    else
      let parts := Text.fields '/' base
      let parts := if parts.getLast? = some [] then parts else parts.dropLast
      let all := parts ++ Text.fields '/' path
      all.take 1 ++ ((all.drop 1).dropLast.filter (· ≠ [])) ++ (all.drop 1).getLast?.toList
  let walked := walk segments
  let last := segments.getLast?.getD []
  let walked := if last = ".".text ∨ last = "..".text then walked ++ [[]] else walked
  let joined := Text.joined ['/'] walked
  if joined = [] then ['/'] else joined

/-- The URL that a reference means where the base is the URL of the style sheet. -/
def join (base reference : Text) : Except Error Text := do
  if base = [] then return reference
  if reference = [] then return base
  let root ← split [] base
  let url ← split root.scheme reference
  if url.scheme ≠ root.scheme ∨ !relativeSchemes.contains url.scheme then return reference
  let hasAuthority := authoritySchemes.contains url.scheme
  if hasAuthority ∧ url.authority ≠ [] then return url.print
  let authority := if hasAuthority then root.authority else url.authority
  if url.path = [] ∧ url.params = [] then
    let query := if url.query = [] then root.query else url.query
    return { url with authority, path := root.path, params := root.params, query }.print
  return { url with authority, path := joinPath root.path url.path }.print

end Url

end UrlRebase
