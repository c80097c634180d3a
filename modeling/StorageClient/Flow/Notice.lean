import StorageClient.Wire.Channel
import StorageClient.Wire.Command

/-!
Notices to the user, and how the outcome of a request becomes one.
-/

namespace StorageClient

structure Notice where
  title : Text
  body : Text
deriving DecidableEq, Repr

/-- Something that answers commands. What else it does is up to its monad. -/
abbrev Service (m : Type → Type) := Command → m Outcome

namespace Notice

def ofTransport (e : TransportError) : Notice := ⟨"Connection error".toList, e.report⟩

/-- The outcome of a request, under the request's own title if it succeeded. -/
def ofOutcome (title : Text) : Outcome → Notice
  | .ok (.failure m) => ⟨"Error".toList, m⟩
  | .ok r => ⟨title, r.data?.getD "Success".toList⟩
  | .error e => ofTransport e

def editCancelled : Notice :=
  ⟨"Cancelled".toList, "Edit cancelled. No changes were saved.".toList⟩

end Notice

end StorageClient
