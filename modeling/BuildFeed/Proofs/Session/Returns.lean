/-
# Starts that do not return

The scheduler may give an operation any parent, itself and operations that
start later among them. A start does not return exactly if it has to look for
a parent and the walk goes in circles (`Build.start_eq_none_iff`,
`starts_return_unless_circular`).

This cannot happen in a build whose operations were grounded: none of them was
started under itself, or while a live operation named it as its parent
(`Grounded`). An id may be used again then.

Key definitions: `Grounded`.
Key theorems: `Session.start_returns_iff`, `History.acyclic`,
`starts_return_unless_circular`.
-/
import BuildFeed.Proofs.Build.Circles
import BuildFeed.Proofs.Session.Live

namespace BuildFeed

namespace Session

variable {listing : Listing} {s : Session} {i : Nat} {op : StartSignal} {b : Build}

/-- A start on a build that is there returns if the search for a parent does. -/
theorem start_returns_iff (listing : Listing) (op : StartSignal) (hb : s.build? i = some b) :
    (∃ a, s.step listing (.start i op) = .ok a) ↔ b.start s.registry s.policy s.hub op ≠ none := by
  cases ht : b.start s.registry s.policy s.hub op with
  | none => simp [step, onBuild, hb, ht]
  | some t => simp [step, onBuild, hb, ht]

theorem start_eq_error_iff (hb : s.build? i = some b) :
    s.step listing (.start i op) = .error .endlessWalk ↔
      b.start s.registry s.policy s.hub op = none := by
  cases ht : b.start s.registry s.policy s.hub op with
  | none => simp [step, onBuild, hb, ht]
  | some t => simp [step, onBuild, hb, ht]

end Session

/-- No operation of a build is started under itself, or while a live operation
names it as its parent; starts of operations that are live do not count. -/
def Grounded (i : Nat) (h : List Call) : Prop :=
  ∀ k ∈ h, ∀ op ∈ k.step.start? i, ∀ b ∈ k.before.build? i, b.live.contains op.id = false →
    op.parent ≠ some op.id ∧ ∀ x ∈ b.live, x.2.parent ≠ some op.id

instance (i : Nat) (h : List Call) : Decidable (Grounded i h) :=
  inferInstanceAs (Decidable (∀ k ∈ h, ∀ op ∈ k.step.start? i, ∀ b ∈ k.before.build? i,
    b.live.contains op.id = false →
      op.parent ≠ some op.id ∧ ∀ x ∈ b.live, x.2.parent ≠ some op.id))

/-- The live operations of a build form no circle if the operations were grounded. -/
theorem History.acyclic {listing : Listing} {config : Config} {registry : Registry}
    {s₀ s : Session} {h : List Call} {i : Nat} (h₀ : s₀.Fresh config registry)
    (hist : History listing s₀ h s) (hg : Grounded i h) :
    ∀ {b : Build}, s.build? i = some b → b.live.Acyclic := by
  apply hist.live_invariant h₀ LiveTable.acyclic_nil fun t x ht => ht.erase x
  intro k hk op b e hst hb hacyclic hnone hparent
  have hnew : b.live.contains op.id = false := by rw [LiveTable.contains, hnone]; rfl
  obtain ⟨hself, hnamed⟩ := hg k hk op (Step.start?_eq_some.mpr hst) b hb hnew
  apply hacyclic.insert
  · rw [hparent]
    exact hself
  · rintro y ⟨e', he', hp⟩
    obtain ⟨t₁, t₂, hlive, -⟩ := List.lookup_eq_some_iff.mp he'
    exact hnamed (y, e') (by rw [hlive]; simp) hp

/-! ### Whole sessions -/

/-- The walk to the nearest ancestor ends unless it goes in circles. A start
on a build returns, unless it has to take such a walk for a connection that
wants the operation; and it always returns if all operations that the build
had before were grounded. -/
theorem starts_return_unless_circular {listing : Listing} {config : Config} {registry : Registry}
    {s₀ s : Session} {h : List Call} {i : Nat} {b : Build}
    (h₀ : Session.new config registry = .ok s₀) (hist : History listing s₀ h s)
    (hb : s.build? i = some b) (op : StartSignal) :
    (∀ slot p, (∃ q, Build.resolve .nearestEnabledAncestor b.live slot p = some q) ↔
      ¬ b.live.Circles slot p) ∧
    ((∃ a, s.step listing (.start i op) = .ok a) ↔
      ¬ (b.closed = false ∧ b.live.get? op.id = none ∧
        config.dispatch.parentPolicy = .nearestEnabledAncestor ∧
          ∃ m, registry.lookup op.details.kind = some m ∧
            ∃ slot ∈ b.targets s.hub m, b.live.Circles slot op.parent)) ∧
    (Grounded i h → (∀ slot p, ¬ b.live.Circles slot p) ∧
      ∃ a, s.step listing (.start i op) = .ok a) := by
  have hfresh := Session.fresh_of_new h₀
  obtain ⟨hregistry, hpolicy, -⟩ := hist.settings hfresh
  have hreturns : (∃ a, s.step listing (.start i op) = .ok a) ↔ ¬ _ :=
    (Session.start_returns_iff listing op hb).trans (not_congr Build.start_eq_none_iff)
  rw [hregistry, hpolicy] at hreturns
  refine ⟨fun slot p => Build.exists_resolve_iff, hreturns, fun hg => ?_⟩
  have hnone : ∀ slot p, ¬ b.live.Circles slot p := (hist.acyclic hfresh hg hb).not_circles
  refine ⟨hnone, hreturns.mpr ?_⟩
  rintro ⟨-, -, -, m, -, slot, -, hcircles⟩
  exact hnone slot op.parent hcircles

/-- Work of a phase starts under other work, and, when both have finished, the
other way round; nobody asks for it. Then a work item starts below it. -/
theorem starts_return_after_reuse :
    ∃ (s₀ s : Session) (h : List Call) (b : Build),
      Session.new default .builtIn = .ok s₀ ∧ History .inOrder s₀ h s ∧ s.build? 0 = some b ∧
      Grounded 0 h ∧ (startsIn 0 h).length = 4 ∧ b.suppressedCount = 2 ∧
      (∀ slot p, ¬ b.live.Circles slot p) ∧
        ∃ a, s.step .inOrder (.start 0 (sampleItem 3 (some ⟨1⟩))) = .ok a := by
  let s₀ := sampleSession .nearestEnabledAncestor 1024
  let steps : List Step := [.connect ⟨"a"⟩ (.ofList [.workItem]), .begin ⟨"x"⟩,
    .start 0 (samplePhase 1 none), .start 0 (samplePhase 2 (some ⟨1⟩)),
    .finish 0 ⟨⟨2⟩, default, .success⟩, .finish 0 ⟨⟨1⟩, default, .success⟩,
    .start 0 (samplePhase 2 none), .start 0 (samplePhase 1 (some ⟨2⟩))]
  have h₀ : Session.new default .builtIn = .ok s₀ := rfl
  have hist := Session.history_calls .inOrder steps s₀
  have hg : Grounded 0 (s₀.calls .inOrder steps) := by decide
  obtain ⟨b, hb⟩ : ∃ b, (s₀.after .inOrder steps).build? 0 = some b :=
    Option.isSome_iff_exists.mp (by decide)
  have hcount : ((s₀.after .inOrder steps).build? 0).map Build.suppressedCount = some 2 := by decide
  rw [hb, Option.map_some, Option.some.injEq] at hcount
  obtain ⟨-, -, hreturns⟩ := starts_return_unless_circular h₀ hist hb (sampleItem 3 (some ⟨1⟩))
  exact ⟨s₀, _, _, b, h₀, hist, hb, hg, by decide, hcount, hreturns hg⟩

/-- Work of a phase that nobody asks for starts under itself, and the start of a
work item below it does not return: with any number of steps, the walk comes
to no end. -/
theorem start_below_circle_does_not_return :
    ∃ (s₀ s : Session) (h : List Call) (b : Build),
      Session.new default .builtIn = .ok s₀ ∧ History .inOrder s₀ h s ∧ s.build? 0 = some b ∧
      b.live.PassesTo 0 ⟨1⟩ ⟨1⟩ ∧ (∀ n, Build.nearest b.live 0 n (some ⟨1⟩) = none) ∧
      s.step .inOrder (.start 0 (sampleItem 2 (some ⟨1⟩))) = .error .endlessWalk := by
  let s₀ := sampleSession .nearestEnabledAncestor 1024
  let steps : List Step := [.connect ⟨"a"⟩ (.ofList [.workItem]), .begin ⟨"x"⟩,
    .start 0 (samplePhase 1 (some ⟨1⟩))]
  let s := s₀.after .inOrder steps
  have h₀ : Session.new default .builtIn = .ok s₀ := rfl
  have hist := Session.history_calls .inOrder steps s₀
  obtain ⟨b, hb⟩ : ∃ b, s.build? 0 = some b := Option.isSome_iff_exists.mp (by decide)
  have hpasses : b.live.PassesTo 0 ⟨1⟩ ⟨1⟩ := by
    have hentry : ((s.build? 0).bind (·.live.get? ⟨1⟩)).map (fun e => (e.reached 0, e.parent)) =
        some (false, some ⟨1⟩) := by decide
    rw [hb, Option.bind_some, Option.map_eq_some_iff] at hentry
    obtain ⟨e, he, hview⟩ := hentry
    obtain ⟨hreached, hparent⟩ := Prod.mk.inj hview
    exact ⟨e, he, hreached, hparent⟩
  have hcircles : b.live.Circles 0 (some ⟨1⟩) := ⟨⟨1⟩, rfl, ⟨1⟩, .refl, .single hpasses⟩
  have hstart : (s.build? 0).map (fun b =>
      (b.start s.registry s.policy s.hub (sampleItem 2 (some ⟨1⟩))).isNone) = some true := by decide
  rw [hb, Option.map_some, Option.some.injEq, Option.isNone_iff_eq_none] at hstart
  exact ⟨s₀, s, _, b, h₀, hist, hb, hpasses, Build.nearest_of_circles hcircles,
    (Session.start_eq_error_iff hb).mpr hstart⟩

end BuildFeed
