import UrlRebase.Digest.Md5
import UrlRebase.Text.Lower
import UrlRebase.Workspace

/-!
# Names after contents

A file is named after its content by the digest of its bytes and its extension in lower
case, so a file with another content has another name.
-/

namespace UrlRebase

def digestName (bytes : ByteArray) (path : Text) : Text :=
  Md5.hexDigest bytes ++ Text.lower (Path.extension path)

namespace Work

/-- The name of a file after its content, which is read once for each path. -/
def digestName (path : Text) : Work Text :=
  Cache.fetch Workspace.names (fun workspace names => { workspace with names }) path do
    modify fun workspace => { workspace with reads := workspace.reads + 1 }
    return UrlRebase.digestName (← read path) path

end Work

end UrlRebase
