import BuildPlan.Project.Validation
import BuildPlan.Proofs.Result

/-!
# What a checked project guarantees

A project passes its check exactly if its sections fit each other (`check_eq_ok_iff`).
-/

namespace BuildPlan.Project

variable {p : Project}

theorem checkSources_eq_ok_iff {seen : List String} {sources : List Source} :
    checkSources seen sources = .ok () ↔
      (∀ s ∈ sources, ∃ v, s.variant? = .ok v) ∧ (sources.map (·.path)).Nodup ∧
        ∀ s ∈ sources, s.path ∉ seen := by
  induction sources generalizing seen with
  | nil => simp [checkSources]
  | cons s sources ih =>
    rw [checkSources, List.forall_mem_cons, List.forall_mem_cons, List.map_cons, List.nodup_cons]
    cases s.variant? with
    | error e => simp
    | ok v =>
      by_cases hseen : s.path ∈ seen
      · simp [hseen]
      · rw [if_neg (by simpa using hseen), ih]
        simp only [List.mem_cons, not_or, List.mem_map, not_exists, not_and]
        constructor
        · rintro ⟨hvariants, hnodup, hrest⟩
          exact ⟨⟨⟨v, rfl⟩, hvariants⟩, ⟨fun s' hs' => (hrest s' hs').1, hnodup⟩, hseen,
            fun s' hs' => (hrest s' hs').2⟩
        · rintro ⟨⟨-, hvariants⟩, ⟨hnew, hnodup⟩, -, hrest⟩
          exact ⟨hvariants, hnodup, fun s' hs' => ⟨hnew s' hs', hrest s' hs'⟩⟩

theorem checkConsumer_eq_ok_iff :
    p.checkConsumer = .ok () ↔
      ∀ consumer, p.includes.consumer = some consumer → ∃ s ∈ p.sources, s.path = consumer := by
  rw [checkConsumer]
  cases p.includes.consumer with
  | none => simp
  | some consumer => simp [List.any_eq_true]

theorem checkItems_eq_ok_iff {generated : String} {items : List Item} :
    checkItems generated items = .ok () ↔
      ∀ item ∈ items, ∃ base, item.base? = .ok base ∧ (base = .out → item.path = generated) := by
  induction items with
  | nil => simp [checkItems]
  | cons item items ih =>
    rw [checkItems, List.forall_mem_cons, ← ih]
    cases item.base? with
    | error e => simp
    | ok base =>
      by_cases hout : base = .out ∧ item.path ≠ generated
      · simp [hout]
      · simp only [if_neg hout]
        rw [not_and, not_not] at hout
        simpa using fun _ => hout

/-- **A project passes its check exactly if its sections fit each other**: the compiler has a name,
there are sources, each listed once and with a variant that is known, the consumer of the packed
header is one of them, what the library takes from the build directory is that header, and the
patterns of the tests can be read. -/
theorem check_eq_ok_iff :
    p.check = .ok () ↔
      p.general.name ≠ "" ∧ p.sources ≠ [] ∧ (∀ s ∈ p.sources, ∃ v, s.variant? = .ok v) ∧
      (p.sources.map (·.path)).Nodup ∧
      (∀ consumer, p.includes.consumer = some consumer → ∃ s ∈ p.sources, s.path = consumer) ∧
      (∀ item ∈ p.library.items, ∃ base, item.base? = .ok base ∧
        (base = .out → item.path = p.includes.output)) ∧
      (∃ pattern, p.tests.fixtureNames = .ok pattern) ∧
      ∃ pattern, p.tests.scenarioNames = .ok pattern := by
  have hsources : checkSources [] p.sources = .ok () ↔
      (∀ s ∈ p.sources, ∃ v, s.variant? = .ok v) ∧ (p.sources.map (·.path)).Nodup := by
    simp [checkSources_eq_ok_iff]
  rw [← checkConsumer_eq_ok_iff, ← checkItems_eq_ok_iff, ← and_assoc (a := ∀ s ∈ p.sources, _),
    ← hsources, check]
  by_cases hname : p.general.name = ""
  · simp [hname, bind, Except.bind, throw, throwThe, MonadExceptOf.throw]
  · by_cases hnone : p.sources = []
    · simp [hname, hnone, bind, Except.bind, throw, throwThe, MonadExceptOf.throw]
    · have hunit : ∀ x : Except Flaw Unit, (∃ u, x = .ok u) ↔ x = .ok () := fun x =>
        ⟨fun ⟨(), h⟩ => h, fun h => ⟨(), h⟩⟩
      simp [hname, hnone, bind_eq_ok_iff, pure, Except.pure, hunit]

end BuildPlan.Project
