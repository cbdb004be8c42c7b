/-
# Sharing descriptors does not show

Two sessions go on from one state with the same steps. In the first a start asks
the mapper once and shares the descriptor among the connections; in the second
it asks the mapper for each connection, under the parent that the connection
sees (`Session.stepEach`). With the built-in mappers the two cannot be told
apart, except by counting how often a mapper is asked: the calls return the
same, every connection is sent the same, news of ends included, and every
operation stands alike (`sharing_does_not_show`).

Key definitions: `Session.stepEach`, `Session.runEach`, `AlikeUpToParent`,
`Advance.LooksSame`.
Key theorems: `Session.Same.agree`, `Session.stepEach_agree`,
`Session.runEach_agree`, `sharing_does_not_show`.
-/
import BuildFeed.Proofs.Build.Unshared
import BuildFeed.Proofs.Session.Failures
import BuildFeed.Proofs.Session.Lockstep
import BuildFeed.Proofs.Session.Order

namespace BuildFeed

open List (Forall₂)

/-! ### The plain way -/

namespace Session

/-- What a call does, if a start asks the mapper for each connection. -/
def stepEach (listing : Listing) (s : Session) : Step → Except Stop Advance
  | .start i op => s.onBuild i fun b =>
    match b.startEach s.registry s.policy s.hub op with
    | none => .error .endlessWalk
    | some t => .ok ⟨s.takeTurn i t, .signalled t.result, t.offers⟩
  | st => s.step listing st

/-- A run of calls in which every start asks the mapper for each connection. -/
def runEach (listing : Listing) (s : Session) (steps : List Step) : Except Stop (List Advance) :=
  s.runBy (stepEach listing) steps

end Session

/-! ### Sessions that look the same -/

theorem Build.Same.trans {b b' b'' : Build} (h : b.Same b') (h' : b'.Same b'') : b.Same b'' where
  alike c :=
    ⟨(h'.alike c).id_eq.trans (h.alike c).id_eq, (h'.alike c).closed_eq.trans (h.alike c).closed_eq,
      (h'.alike c).audience.trans (h.alike c).audience, (h'.alike c).view_eq.trans (h.alike c).view_eq⟩
  kinds_eq := h'.kinds_eq.trans h.kinds_eq

namespace Session.Same

variable {listing listing' : Listing} {s s' s'' : Session} {st : Step}

theorem refl (s : Session) : s.Same s := by
  refine ⟨rfl, rfl, rfl, rfl, List.forall₂_same.mpr fun o _ => ?_, rfl⟩
  cases o with
  | none => exact .none
  | some b => exact .some (.refl b)

theorem symm (h : s.Same s') : s'.Same s := by
  refine ⟨h.registry_eq.symm, h.policy_eq.symm, h.hub_eq.symm, h.bridge_eq.symm, ?_,
    h.consulted_eq.symm⟩
  refine (h.builds.imp fun o o' ho => ?_).flip
  cases ho with
  | none => exact .none
  | some hb => exact .some hb.symm

theorem trans (h : s.Same s') (h' : s'.Same s'') : s.Same s'' := by
  refine ⟨h'.registry_eq.trans h.registry_eq, h'.policy_eq.trans h.policy_eq,
    h'.hub_eq.trans h.hub_eq, h'.bridge_eq.trans h.bridge_eq, ?_, h'.consulted_eq.trans h.consulted_eq⟩
  refine forall₂_comp (fun o o' o'' ho ho' => ?_) h.builds h'.builds
  cases ho with
  | none =>
    cases ho'
    exact .none
  | some hb =>
    cases ho' with
    | some hb' => exact .some (hb.trans hb')

/-- One step of both sessions. -/
theorem agree (listing listing' : Listing) (h : s.Same s') (hs : s.Sound) (hs' : s'.Sound)
    (hu : ∀ m ∈ s.registry.mappers, m.Uniform) (st : Step) :
    Agree Advance.Same (s.step listing st) (s'.step listing' st) := by
  apply step_agree (stopOf_congr h.bridge_eq (isSome_build?_eq h.builds) st)
    fun a he => h.step listing' hs hs' hu he
  intro a' he'
  obtain ⟨a, he, -⟩ := h.symm.step listing hs' hs (h.registry_eq.symm ▸ hu) he'
  exact ⟨a, he⟩

theorem unasked (h : s.Same s') : s.unasked.Same s'.unasked :=
  ⟨h.registry_eq, h.policy_eq, h.hub_eq, h.bridge_eq, h.builds, rfl⟩

end Session.Same

namespace Advance.Same

variable {a a' a'' : Advance}

theorem refl (a : Advance) : a.Same a := ⟨.refl _, rfl, fun _ => rfl⟩

theorem trans (h : a.Same a') (h' : a'.Same a'') : a.Same a'' :=
  ⟨h.session.trans h'.session, h'.reply_eq.trans h.reply_eq,
    fun c => (h'.messages_eq c).trans (h.messages_eq c)⟩

theorem unasked (h : a.Same a') : a.unasked.Same a'.unasked :=
  ⟨h.session.unasked, h.reply_eq, h.messages_eq⟩

end Advance.Same

/-! ### One step, in the two ways -/

namespace Session

variable {listing : Listing} {s s' : Session} {st : Step}

/-- A sound build is taken over. -/
theorem Sound.takeTurn (hs : s.Sound) {i : Nat} {b : Build} (hb : s.build? i = some b) {t : Turn}
    (ht : t.build.Sound) : (s.takeTurn i t).Sound := by
  intro j b' hb'
  rw [build?_takeTurn hb] at hb'
  split at hb'
  · exact Option.some.inj hb' ▸ ht
  · exact hs j b' hb'

/-- Sessions that differ in the record alone do the same in a step. -/
theorem step_agree_unasked (listing : Listing) (h : s.unasked.Same s'.unasked) (hs : s.Sound)
    (hs' : s'.Sound) (hu : ∀ m ∈ s.registry.mappers, m.Uniform) (st : Step) :
    Agree (fun a a' => a.unasked.Same a'.unasked) (s.step listing st) (s'.step listing st) := by
  have hagree := (h.agree listing listing hs hs' hu st).mono fun _ _ => Advance.Same.unasked
  rw [← Agree.map_iff] at hagree ⊢
  rwa [step_unasked, step_unasked] at hagree

/-- A step in the usual way and in the plain way. -/
theorem stepEach_agree (listing : Listing) (hs : s.Sound) (hu : ∀ m ∈ s.registry.mappers, m.Uniform)
    (st : Step) :
    Agree (fun a a' => a.unasked.Same a'.unasked ∧ a'.session.Sound) (s.step listing st)
      (s.stepEach listing st) := by
  by_cases hst : ∃ i op, st = .start i op
  · obtain ⟨i, op, rfl⟩ := hst
    rw [step, stepEach, onBuild, onBuild]
    cases hb : s.build? i with
    | none => exact rfl
    | some b =>
      have hrel := Build.startEach_same s.policy s.hub op hu (hs i b hb)
      simp only
      cases ht : b.start s.registry s.policy s.hub op <;>
        cases ht' : b.startEach s.registry s.policy s.hub op <;> rw [ht, ht'] at hrel
      · exact rfl
      · cases hrel
      · cases hrel
      · obtain ⟨hsame, hsound⟩ := hrel
        exact ⟨⟨(Same.refl s).unasked.takeTurn hsame i, congrArg Reply.signalled hsame.result_eq,
          hsame.messages_eq⟩, hs.takeTurn hb hsound⟩
  · have heq : s.stepEach listing st = s.step listing st := by
      cases st with
      | start i op => exact absurd ⟨i, op, rfl⟩ hst
      | _ => rfl
    rw [heq]
    cases hstep : s.step listing st with
    | error e => exact rfl
    | ok a => exact ⟨.refl _, (step_eq_ok.mp hstep).sound hs⟩

end Session

/-! ### Whole sessions -/

/-- Two calls look the same to the caller and to every connection, and the sessions do
afterwards, but for the record of the mappers that were asked. -/
structure Advance.LooksSame (a a' : Advance) : Prop where
  reply_eq : a'.reply = a.reply
  messages_eq : ∀ c, messagesTo c a'.offers = messagesTo c a.offers
  session : a.session.unasked.LooksLike a'.session.unasked

/-- A run goes on alike in the two ways. -/
theorem Session.runEach_agree (listing : Listing) {s : Session} (hs : s.Sound)
    (hu : ∀ m ∈ s.registry.mappers, m.Uniform) (steps : List Step) :
    Agree (Forall₂ Advance.LooksSame) (s.run listing steps) (s.runEach listing steps) := by
  rw [run_eq_runBy, runEach]
  -- the sessions stay sound, with the same mappers, and the same but for the record
  apply runBy_agree (R := fun _ t t' => t.Sound ∧ t'.Sound ∧ t.registry = s.registry ∧
    t.unasked.Same t'.unasked) ?_ (List.nil_append steps) ⟨hs, hs, rfl, .refl _⟩
  rintro done st t t' - ⟨ht, ht', hregistry, hsame⟩
  have hut : ∀ m ∈ t.registry.mappers, m.Uniform := hregistry ▸ hu
  have hut' : ∀ m ∈ t'.registry.mappers, m.Uniform := by
    rw [show t'.registry = t.registry from hsame.registry_eq]
    exact hut
  have hone := (step_agree_unasked listing hsame ht ht' hut st).outcomes
  refine hone.trans (stepEach_agree listing ht' hut' st) ?_
  rintro a a' a'' ⟨ha, -, hone⟩ ⟨htwo, hsound'⟩
  have hsound : a.session.Sound := (step_eq_ok.mp ha).sound ht
  have hregistry' : a.session.registry = s.registry := (step_eq_ok.mp ha).frame.1.trans hregistry
  have hboth := hone.trans htwo
  exact ⟨⟨hboth.reply_eq, hboth.messages_eq, hboth.session.looksLike⟩, hsound, hsound', hregistry',
    hboth.session⟩

/-- What a mapper answers for a parent and for the parent `q`: one error, no descriptor,
or descriptors that differ in the parent. -/
inductive AlikeUpToParent (q : Option OperationId) :
    Except Error (Option Descriptor) → Except Error (Option Descriptor) → Prop
  | refused (e : Error) : AlikeUpToParent q (.error e) (.error e)
  | declined : AlikeUpToParent q (.ok none) (.ok none)
  | described (d : Descriptor) : AlikeUpToParent q (.ok (some d)) (.ok (some (d.withParent q)))

theorem Mapper.Uniform.alike {m : Mapper} (hu : m.Uniform) (data : m.Data) (op : StartSignal)
    (p q : Option OperationId) : AlikeUpToParent q (m.describe data op p) (m.describe data op q) := by
  rw [hu.describe_eq data op p, hu.describe_eq data op q]
  cases m.describe data op none with
  | error e => exact .refused e
  | ok o =>
    cases o with
    | none => exact .declined
    | some d =>
      have hd := AlikeUpToParent.described (q := q) (d.withParent p)
      rwa [Descriptor.withParent_withParent] at hd

/-- The built-in mappers answer alike for all parents, and a descriptor for another parent
differs in the parent alone. So from every state of a session with these mappers it goes
on alike, whether a start asks the mapper once or for each connection: all calls
return the same, and every connection is sent the same. -/
theorem sharing_does_not_show {listing : Listing} {config : Config} {registry : Registry}
    {s₀ s : Session} {h : List Call} (h₀ : Session.new config registry = .ok s₀)
    (hm : ∀ m ∈ registry.mappers, m ∈ Mapper.builtIn) (hist : History listing s₀ h s) :
    (∀ m ∈ Mapper.builtIn, ∀ data op p q,
      AlikeUpToParent q (m.describe data op p) (m.describe data op q)) ∧
    (∀ (d : Descriptor) q, (d.withParent q).identity = { d.identity with parent := q } ∧
      (d.withParent q).subject = d.subject) ∧
    ∀ steps, Agree (Forall₂ Advance.LooksSame) (s.run listing steps) (s.runEach listing steps) := by
  have hfresh := Session.fresh_of_new h₀
  have hu : ∀ m ∈ s.registry.mappers, m.Uniform := by
    rw [(hist.settings hfresh).1]
    exact fun m hmem => Mapper.uniform_of_mem_builtIn (hm m hmem)
  refine ⟨fun m hmem data op p q => ?_, fun d q => ⟨rfl, rfl⟩, fun steps => ?_⟩
  · exact (Mapper.uniform_of_mem_builtIn hmem).alike data op p q
  · exact Session.runEach_agree listing (hist.sound hfresh.sound) hu steps

/-- Two clients see a work item under two parents; in the plain way its mapper is asked
twice. -/
theorem sharing_does_not_show_of_two :
    ∃ (s₀ s : Session) (h : List Call) (steps : List Step),
      Session.new default .builtIn = .ok s₀ ∧ History .inOrder s₀ h s ∧
      (s.run .inOrder steps).toOption.map (·.map (·.session.consulted.length)) = some [2, 2, 2] ∧
      (s.runEach .inOrder steps).toOption.map (·.map (·.session.consulted.length)) = some [3, 3, 3] ∧
      Agree (Forall₂ Advance.LooksSame) (s.run .inOrder steps) (s.runEach .inOrder steps) := by
  let s₀ := sampleSession .nearestEnabledAncestor 1024
  let before : List Step := [.connect ⟨"a"⟩ (.ofList [.workItem]),
    .connect ⟨"b"⟩ (.ofList [.workItem, .buildPhase]), .begin ⟨"x"⟩, .start 0 (samplePhase 1 none)]
  let steps : List Step := [.start 0 (sampleItem 2 (some ⟨1⟩)), .finish 0 ⟨⟨2⟩, default, .success⟩,
    .close 0 .completed]
  have h₀ : Session.new default .builtIn = .ok s₀ := rfl
  have hist := Session.history_calls .inOrder before s₀
  obtain ⟨-, -, hagree⟩ := sharing_does_not_show h₀ (fun _ hmem => hmem) hist
  exact ⟨s₀, _, _, steps, h₀, hist, by decide, by decide, hagree steps⟩

end BuildFeed
