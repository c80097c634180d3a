import StorageClient.Flow.Requests

/-!
Saving an edited file over a transport of lines. Two lines go out whatever comes back, and what the
user is told depends on the answer to the second of them alone.
-/

namespace StorageClient

abbrev Transport (σ : Type) := Text → StateM σ Outcome

namespace Transport

variable {σ : Type}

def service (send : Transport σ) : Service (StateM σ) := fun c => send c.line

end Transport

namespace Flow

variable (path content : Text)

variable {σ τ : Type}

end Flow

end StorageClient
