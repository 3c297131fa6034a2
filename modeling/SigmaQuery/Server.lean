/-!
# The document server

Where the server that keeps the rules is found.
-/

namespace SigmaQuery

/-- A server for documents. -/
structure Server where
  hosts : List String
  /-- The user and the password, if the server asks for them. -/
  login : Option (String × String) := none
  port : Nat
  scheme : String
  /-- The index that holds the rules. -/
  index : String
deriving Repr, DecidableEq, Inhabited

def Server.standard : Server where
  hosts := ["localhost"]
  port := 9200
  scheme := "http"
  index := "sigma_doc"

end SigmaQuery
