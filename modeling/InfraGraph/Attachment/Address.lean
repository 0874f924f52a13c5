import InfraGraph.Attachment.Basic
import InfraGraph.Attachment.Url

/-!
# Addresses of stores

`memory://` is a store in memory, `simplefs:///some/dir` one in a directory.
-/

namespace InfraGraph

/-- Where a store keeps its attachments. -/
inductive StoreAddress where
  /-- In memory, for one run. -/
  | memory
  /-- In a directory. -/
  | directory (path : String)
  deriving DecidableEq, Repr

/-- The store that an address names. -/
def StoreAddress.parse (address : String) : Except AddressError StoreAddress :=
  match Url.parse address with
  | .error fault => .error (.malformed fault.message)
  | .ok url =>
    if url.scheme = "memory" then
      if url.hasHost ∨ url.path ≠ "" then .error .unexpectedParts else .ok .memory
    else if url.scheme = "simplefs" then
      if url.hasHost then .error .hostGiven
      else if url.path = "" then .error .pathMissing
      else if url.path = "/" then .error .pathIsRoot
      else .ok (.directory url.path)
    else .error (.unknownScheme url.scheme)

end InfraGraph
