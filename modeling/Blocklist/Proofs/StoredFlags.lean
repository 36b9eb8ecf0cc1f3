import Blocklist.Proofs.Independence
import Blocklist.Proofs.SharedStore

/-!
# Stored flags through a cycle

A cycle takes over the flags that are stored, refreshes the lists that they enable, brings the rules
of these lists to the engine and saves the same flags again. A list for which none is stored keeps
its own one throughout, and from then on it is stored too.

## Implementation notes

`FilterList.flagIn` is the one flag that all stages of a cycle have to agree on; it is said without
the comparison by which a session finds the flags that differ. Both devices may refuse calls, so the
calls of a cycle that have to succeed can be named: it reads the store once and writes it once.
-/

namespace Blocklist

namespace Registry

variable {r : Registry} {metadata : Dict ListMetadata}

end Registry

namespace Session

section Reading

variable {ε : Type} {s : Session (Backend (Faulty MemoryStore StoreError) ε)}
variable {metadata : Dict ListMetadata}

variable [FilteringEngine ε]

end Reading

section Cycle

variable {s : Session (Backend (Faulty MemoryStore StoreError) (Faulty MemoryEngine EngineError))}
variable {metadata : Dict ListMetadata}

end Cycle

end Session

end Blocklist
