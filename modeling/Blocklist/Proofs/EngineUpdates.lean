import Blocklist.Proofs.FileEngine

/-!
# Updates of an engine in memory

An update is taken exactly if it leaves the ids distinct as far as it adds any, and the rules within
the limit. It is taken as a whole: what it does not remove stays in order, and what it adds comes
behind. So from an engine without rules no run of updates leads to two rules of one id or past the
limit, whichever of them are refused, and the engine counts those it took.

## Implementation notes

`RuleUpdate.Fits` speaks of the rules an engine holds and of the update alone, without the walk that
looks for a repeated id.
-/

namespace Blocklist

namespace RuleUpdate

variable {update : RuleUpdate} {limit : Nat} {current next : List Rule}

/-- An update fits an engine that holds some rules and takes `limit` of them. -/
structure Fits (update : RuleUpdate) (limit : Nat) (current : List Rule) : Prop where
  /-- It adds no id twice. -/
  nodup : (update.addRules.map (·.id)).Nodup
  /-- It adds an id that is there only if it removes it. -/
  removed : ∀ rule ∈ current, rule.id ∈ update.addRules.map (·.id) → rule.id ∈ update.removeRuleIds
  length_le : (current.filter fun rule => rule.id ∉ update.removeRuleIds).length +
    update.addRules.length ≤ limit

theorem apply_eq_ok_iff_fits :
    update.apply limit current = .ok next ↔
      update.Fits limit current ∧
        next = (current.filter fun rule => rule.id ∉ update.removeRuleIds) ++ update.addRules := by
  rw [apply_eq_ok_iff, kept_eq_filter, List.length_append]
  constructor
  · rintro ⟨hnodup, hnew, hlength, hnext⟩
    refine ⟨⟨hnodup, fun rule hrule hid => ?_, hlength⟩, hnext⟩
    obtain ⟨added, hadded, heq⟩ := List.mem_map.mp hid
    by_contra hstays
    have hkept : rule ∈ current.filter fun rule => rule.id ∉ update.removeRuleIds :=
      List.mem_filter.mpr ⟨hrule, by simpa using hstays⟩
    exact hnew added hadded (heq ▸ List.mem_map_of_mem hkept)
  · rintro ⟨hfits, hnext⟩
    refine ⟨hfits.nodup, fun added hadded hid => ?_, hfits.length_le, hnext⟩
    obtain ⟨rule, hkept, heq⟩ := List.mem_map.mp hid
    obtain ⟨hrule, hstays⟩ := List.mem_filter.mp hkept
    have hremoved := hfits.removed rule hrule (heq ▸ List.mem_map_of_mem hadded)
    exact absurd hremoved (by simpa using hstays)

/-- An update that fits rules with distinct ids leaves distinct ids. -/
theorem Fits.nodup_ids (h : update.Fits limit current) (hcurrent : (current.map (·.id)).Nodup) :
    (((current.filter fun rule => rule.id ∉ update.removeRuleIds) ++ update.addRules).map
      (·.id)).Nodup := by
  rw [List.map_append]
  refine List.nodup_append.mpr ⟨hcurrent.sublist (List.filter_sublist.map _), h.nodup, ?_⟩
  rintro id hid _ hadded rfl
  obtain ⟨rule, hkept, rfl⟩ := List.mem_map.mp hid
  obtain ⟨hrule, hstays⟩ := List.mem_filter.mp hkept
  exact absurd (h.removed rule hrule hadded) (by simpa using hstays)

end RuleUpdate

/-! ### Runs of calls -/

/-- Whether an answer says that an update was taken. -/
def EngineAnswer.isTaken : EngineAnswer → Bool
  | .update (.ok _) => true
  | _ => false

/-- The answers of an engine to a run of calls. -/
def EngineCall.answers {ε : Type} [FilteringEngine ε] (engine : ε) : List EngineCall → List EngineAnswer
  | [] => []
  | call :: calls => (call.perform engine).1 :: answers (call.perform engine).2 calls

namespace MemoryEngine

variable {engine : MemoryEngine} {update : RuleUpdate} {limit : Nat}

theorem update_of_fits (h : update.Fits engine.limit engine.rules) :
    FilteringEngine.update update engine =
      (.ok (),
        { engine with
          rules := (engine.rules.filter fun rule => rule.id ∉ update.removeRuleIds) ++ update.addRules
          updates := engine.updates + 1 }) := by
  have happly := RuleUpdate.apply_eq_ok_iff_fits.mpr ⟨h, rfl⟩
  simp only [FilteringEngine.update, happly]

/-- An update that does not fit changes nothing. -/
theorem update_of_not_fits (h : ¬ update.Fits engine.limit engine.rules) :
    ∃ error, FilteringEngine.update update engine = (.error error, engine) := by
  cases happly : update.apply engine.limit engine.rules with
  | ok next => exact absurd (RuleUpdate.apply_eq_ok_iff_fits.mp happly).1 h
  | error error => exact ⟨error, by simp only [FilteringEngine.update, happly]⟩

/-- An engine of a limit holds distinct ids, and no more rules than the limit. -/
structure Bounded (limit : Nat) (engine : MemoryEngine) : Prop where
  limit_eq : engine.limit = limit
  nodup : (engine.rules.map (·.id)).Nodup
  length_le : engine.rules.length ≤ limit

theorem bounded_withLimit (limit : Nat) : (withLimit limit).Bounded limit :=
  ⟨rfl, .nil, Nat.zero_le _⟩

/-- A call keeps the bounds, and adds one to the count exactly if it is an update that is taken. -/
theorem Bounded.perform (h : engine.Bounded limit) (call : EngineCall) :
    (call.perform engine).2.Bounded limit ∧
      (call.perform engine).2.updates = engine.updates + [(call.perform engine).1].countP (·.isTaken) := by
  cases call with
  | ruleIds => exact ⟨h, rfl⟩
  | update change =>
      by_cases hfits : change.Fits engine.limit engine.rules
      · rw [EngineCall.perform, update_of_fits hfits]
        refine ⟨⟨h.limit_eq, hfits.nodup_ids h.nodup, ?_⟩, rfl⟩
        simp only [Prod.map_snd, id_eq, List.length_append]
        exact h.limit_eq ▸ hfits.length_le
      · obtain ⟨error, hrefused⟩ := update_of_not_fits hfits
        rw [EngineCall.perform, hrefused]
        exact ⟨h, rfl⟩

/-- So does a run of calls, for every update that is taken. -/
theorem Bounded.run (h : engine.Bounded limit) (calls : List EngineCall) :
    (EngineCall.run engine calls).Bounded limit ∧
      (EngineCall.run engine calls).updates =
        engine.updates + (EngineCall.answers engine calls).countP (·.isTaken) := by
  induction calls generalizing engine with
  | nil => exact ⟨h, rfl⟩
  | cons call calls ih =>
      obtain ⟨hbounded, hcount⟩ := h.perform call
      obtain ⟨hbounded', hcount'⟩ := ih hbounded
      refine ⟨hbounded', ?_⟩
      calc
        (EngineCall.run engine (call :: calls)).updates
        _ = (call.perform engine).2.updates +
              (EngineCall.answers (call.perform engine).2 calls).countP (·.isTaken) := hcount'
        _ = engine.updates + ([(call.perform engine).1].countP (·.isTaken) +
              (EngineCall.answers (call.perform engine).2 calls).countP (·.isTaken)) := by
          rw [hcount, Nat.add_assoc]
        _ = engine.updates + (EngineCall.answers engine (call :: calls)).countP (·.isTaken) := by
          rw [← List.countP_append]
          rfl

/-- **Updates are exact.** Whatever rules an engine holds and whatever its limit, it takes an update
exactly if the added ids are distinct, those of them that are there are removed, and the rules that
stay and those that are added fit the limit; it then holds the former, in order, and the latter behind
them. After any run of calls of an engine that began without rules, its ids are distinct, the limit is
kept, and its count is that of the updates taken; the next update is taken, and counts one more, or
is refused and changes nothing. -/
theorem engine_updates_are_exact :
    (∀ (update : RuleUpdate) (limit : Nat) (current next : List Rule),
      update.apply limit current = .ok next ↔
        update.Fits limit current ∧
          next = (current.filter fun rule => rule.id ∉ update.removeRuleIds) ++ update.addRules) ∧
    ∀ (limit : Nat) (before : List EngineCall) (update : RuleUpdate),
      let engine := EngineCall.run (withLimit limit) before
      let result := (FilteringEngine.update update engine).1
      let engine' := (FilteringEngine.update update engine).2
      (engine.rules.map (·.id)).Nodup ∧ engine.rules.length ≤ limit ∧
        engine.updates = (EngineCall.answers (withLimit limit) before).countP (·.isTaken) ∧
        (update.Fits limit engine.rules ∧ result = .ok () ∧
            engine'.rules =
              (engine.rules.filter fun rule => rule.id ∉ update.removeRuleIds) ++ update.addRules ∧
            engine'.updates = engine.updates + 1 ∨
          ¬ update.Fits limit engine.rules ∧ (∃ error, result = .error error) ∧ engine' = engine) := by
  refine ⟨fun _ _ _ _ => RuleUpdate.apply_eq_ok_iff_fits, ?_⟩
  intro limit before update engine result engine'
  obtain ⟨hbounded, hcount⟩ := (bounded_withLimit limit).run before
  refine ⟨hbounded.nodup, hbounded.length_le, hcount.trans (Nat.zero_add _), ?_⟩
  by_cases hfits : update.Fits limit engine.rules
  · have htaken := update_of_fits (hbounded.limit_eq.symm ▸ hfits)
    refine .inl ⟨hfits, congrArg Prod.fst htaken, ?_, ?_⟩
    · exact congrArg (·.2.rules) htaken
    · exact congrArg (·.2.updates) htaken
  · obtain ⟨error, hrefused⟩ := update_of_not_fits (hbounded.limit_eq.symm ▸ hfits)
    exact .inr ⟨hfits, ⟨error, congrArg Prod.fst hrefused⟩, congrArg Prod.snd hrefused⟩

end MemoryEngine

end Blocklist
