import Blocklist.Engine
import Blocklist.Store

/-!
# Backends

What a session works with: a store and an engine, each of any kind and neither touching the other.
-/

namespace Blocklist

/-- A store and an engine side by side. -/
structure Backend (σ ε : Type) where
  store : σ
  engine : ε
  deriving Inhabited

namespace Backend

variable {σ ε : Type}

instance [KeyValueStore σ] : KeyValueStore (Backend σ ε) where
  get key b :=
    let (result, store) := KeyValueStore.get key b.store
    (result, { b with store })
  set items b :=
    let (result, store) := KeyValueStore.set items b.store
    (result, { b with store })

instance [FilteringEngine ε] : FilteringEngine (Backend σ ε) where
  ruleIds b :=
    let (result, engine) := FilteringEngine.ruleIds b.engine
    (result, { b with engine })
  update update b :=
    let (result, engine) := FilteringEngine.update update b.engine
    (result, { b with engine })

end Backend

end Blocklist
