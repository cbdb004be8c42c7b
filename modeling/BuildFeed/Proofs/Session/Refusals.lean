/-
# Parents beyond refused operations

A mapper may refuse an operation, and then its start is answered with an error
and leaves no trace. The walk to the nearest ancestor of a later operation
ends where it comes to an operation that was refused. So with a scheduler that
keeps its contract an event names the nearest ancestor that was published to
the connection, unless an operation before that was refused (`Severed`); then
it names no parent, although there is one (`parents_up_to_refusals`).

Whether a mapper is asked at all depends on what the other connections want,
so that an operation may be refused on their account
(`parent_lost_beyond_refusal`).

Key definitions: `RefusedIn`, `Severed`, `DoneIn`.
Key theorems: `liveAfter_iff_not_refused`, `nearestIn_unrefused_iff`,
`History.event_sees`, `parents_up_to_refusals`.
-/
import BuildFeed.Proofs.Session.Nesting

namespace BuildFeed

/-- The start of an operation was answered with an error. -/
def RefusedIn (i : Nat) (h : List Call) (x : OperationId) : Prop :=
  ∃ k ∈ h, ∃ op e, k.step = .start i op ∧ op.id = x ∧ k.outcome.reply = .signalled (.error e)

/-- Before the first of a lineage that was published to a connection, an operation
was refused. -/
def Severed (i : Nat) (h : List Call) (c : Nat) (l : List OperationId) : Prop :=
  ∃ l₁ p l₂, l = l₁ ++ p :: l₂ ∧ PublishedTo i h c p ∧ (∀ x ∈ l₁, ¬ PublishedTo i h c x) ∧
    ∃ x ∈ l₁, RefusedIn i h x

/-! ### Refused operations -/

/-- The mapper of an operation that was published did not refuse it. -/
theorem PublishedTo.not_refused {listing : Listing} {s₀ s : Session} {h : List Call} {i c : Nat}
    {x : OperationId} (hp : PublishedTo i h c x) (hist : History listing s₀ h s)
    (hord : Ordered (startsIn i h)) : ¬ RefusedIn i h x := by
  rintro ⟨k', hk', op', e, hst', hid', hreply'⟩
  obtain ⟨k, hk, op, hst, hid, hne⟩ := hp
  have hkk : k' = k := hord.call_unique hk' hk hst' hst (hid'.trans hid.symm)
  rw [hkk] at hreply'
  obtain ⟨pre, post, rfl⟩ := List.append_of_mem hk
  have hstep := hist.split.2.1
  rw [hst] at hstep
  obtain ⟨b, t, -, ht, hreply, ho⟩ := (Session.step_eq_ok.mp hstep).of_start
  have hoffers : t.offers ≠ [] := by
    intro hnil
    apply hne
    rw [Call.offered, ho, hnil]
    rfl
  rw [Build.result_of_offers ht hoffers, hreply'] at hreply
  exact absurd hreply (by simp)

/-- An operation was started and after that finished. -/
def DoneIn (i : Nat) (h : List Call) (x : OperationId) : Prop :=
  ∃ pre k post op, h = pre ++ k :: post ∧ k.step = .start i op ∧ op.id = x ∧
    ∃ k' ∈ post, ∃ f, k'.step = .finish i f ∧ f.id = x

/-- An operation that was started and not finished since is live unless it was refused. -/
theorem liveAfter_iff_not_refused {listing : Listing} {s₀ s : Session} {h : List Call} {i : Nat}
    (hord : Ordered (startsIn i h)) (hist : History listing s₀ h s) {x : OperationId}
    (hstarted : ∃ op ∈ startsIn i h, op.id = x) (hnot : ¬ DoneIn i h x) :
    LiveAfter i h x ↔ ¬ RefusedIn i h x := by
  constructor
  · rintro ⟨k, op, hopened⟩ ⟨k', hk', op', e, hst', hid', hreply'⟩
    have hkk : k = k' :=
      hord.call_unique hopened.mem hk' hopened.step_eq hst' (hopened.id_eq.trans hid'.symm)
    obtain ⟨pre, post, -, -, -, hreply, -⟩ := hopened
    rw [hkk, hreply'] at hreply
    exact absurd hreply (by simp)
  · intro hrefused
    obtain ⟨op, hop, rfl⟩ := hstarted
    obtain ⟨k, hk, hst⟩ := mem_startsIn.mp hop
    obtain ⟨pre, post, rfl⟩ := List.append_of_mem hk
    have hstep := hist.split.2.1
    rw [hst] at hstep
    obtain ⟨b, t, -, -, hreply, -⟩ := (Session.step_eq_ok.mp hstep).of_start
    refine ⟨k, op, pre, post, rfl, hst, rfl, ?_, fun k' hk' f hst' hid => ?_⟩
    · cases hresult : t.result with
      | ok u => rw [hreply, hresult]
      | error e =>
        rw [hresult] at hreply
        exact absurd ⟨k, hk, op, e, hst, rfl, hreply⟩ hrefused
    · exact hnot ⟨pre, k, post, op, rfl, hst, rfl, k', hk', f, hst', hid⟩

/-- An operation that was started and is not finished is live unless it was refused. -/
theorem Scheduled.liveAfter_iff {listing : Listing} {s₀ s : Session} {h : List Call} {i : Nat}
    (hsched : Scheduled i h) (hist : History listing s₀ h s) {x : OperationId}
    (hstarted : ∃ op ∈ startsIn i h, op.id = x) (hunfinished : x ∉ finishesIn i h) :
    LiveAfter i h x ↔ ¬ RefusedIn i h x := by
  refine liveAfter_iff_not_refused hsched.ordered hist hstarted ?_
  rintro ⟨pre, k, post, op, rfl, -, -, k', hk', f, hst', hid⟩
  refine hunfinished (mem_finishesIn.mpr ⟨k', ?_, f, hst', hid⟩)
  exact List.mem_append_right _ (List.mem_cons_of_mem _ hk')

/-! ### The nearest ancestor -/

/-- The nearest published ancestor is reached over operations that were not
refused exactly if nothing before it was refused. -/
theorem nearestIn_unrefused_iff {listing : Listing} {s₀ s : Session} {h : List Call} {i c : Nat}
    {l : List OperationId} {p : OperationId} (hist : History listing s₀ h s)
    (hord : Ordered (startsIn i h)) :
    NearestIn l (PublishedTo i h c) (fun x => ¬ RefusedIn i h x) p ↔
      NearestIn l (PublishedTo i h c) (fun _ => True) p ∧ ¬ Severed i h c l := by
  constructor
  · rintro ⟨l₁, l₂, rfl, hpub, hhidden, hnot⟩
    refine ⟨⟨l₁, l₂, rfl, hpub, hhidden, fun _ _ => trivial⟩, ?_⟩
    rintro ⟨m₁, q, m₂, heq, hpub', hhidden', x, hx, hrefused⟩
    obtain rfl := eq_of_first heq hpub hpub' hhidden hhidden'
    exact hnot x (List.mem_append_left _ hx) hrefused
  · rintro ⟨⟨l₁, l₂, rfl, hpub, hhidden, -⟩, hnot⟩
    refine ⟨l₁, l₂, rfl, hpub, hhidden, fun x hx hrefused => ?_⟩
    rcases List.mem_append.mp hx with hx | hx
    · exact hnot ⟨l₁, p, l₂, rfl, hpub, hhidden, x, hx, hrefused⟩
    · obtain rfl := List.mem_singleton.mp hx
      exact hpub.not_refused hist hord hrefused

/-! ### Parents in events -/

namespace History

variable {listing : Listing} {config : Config} {registry : Registry} {s₀ s : Session}
  {h : List Call} {i c : Nat} {e : Event}

/-- Every event names the parent that the connection saw when the operation
started. -/
theorem event_sees (h₀ : s₀.Fresh config registry) (hu : ∀ m ∈ registry.mappers, m.Uniform)
    (hist : History listing s₀ h s) (hord : Ordered (startsIn i h))
    (he : e ∈ eventsIn i (Call.offered c) h) :
    ∃ pre k post op l, h = pre ++ k :: post ∧ k.step = .start i op ∧ op.id = e.descriptor.id ∧
      Lineage (startsIn i pre) op.parent l ∧
      ∀ p, e.descriptor.parent = some p ↔
        Sees config.dispatch.parentPolicy i pre c op.parent l p := by
  have hf : ∀ m ∈ registry.mappers, m.Faithful := fun m hm => (hu m hm).faithful
  obtain ⟨k, hk, hi, build, hm⟩ := mem_eventsIn.mp he
  obtain ⟨pre, post, rfl⟩ := List.append_of_mem hk
  rcases hist.event_call h₀ hu hord hi hm with ⟨op, -, hst, -⟩ | ⟨f, -, -, -, hst, -⟩
  · obtain ⟨build', sh, l, hsh, hmade, hl, hsees⟩ := hist.start_sees h₀ hf hord hst hm
    obtain ⟨-, rfl⟩ := Message.event.inj hsh
    exact ⟨pre, k, post, op, l, rfl, hst, (hmade.id_eq hu).symm, hl, hsees⟩
  · -- the finish tells what the start told
    obtain ⟨build₀, k₀, op, sh, hopened, hshown, hmade, hfin⟩ := hist.finish_call h₀ hf hst hm
    obtain ⟨r, task, hev⟩ := hmade.finished_eq hu hfin
    obtain ⟨-, rfl⟩ := Message.event.inj hev
    obtain ⟨pre₀, post₀, rfl, hst₀, hid₀, -⟩ := hopened
    rw [List.append_assoc, List.cons_append] at hist hord ⊢
    obtain ⟨build₁, sh₁, l, hsh, -, hl, hsees⟩ := hist.start_sees h₀ hf hord hst₀ hshown
    obtain ⟨-, hev⟩ := Message.event.inj hsh
    obtain ⟨-, hdesc⟩ := Event.started.inj hev
    refine ⟨pre₀, k₀, _, op, l, rfl, hst₀, (hmade.id_eq hu).symm, hl, fun p => ?_⟩
    show sh.descriptor.parent = some p ↔ _
    rw [hdesc]
    exact hsees p

end History

/-! ### Whole sessions -/

/-- With a scheduler that keeps its contract, every event names the nearest
ancestor such that it was published to the connection and nothing before it was
refused. That is the nearest ancestor that was published, unless an operation
before that was refused. -/
theorem parents_up_to_refusals {listing : Listing} {config : Config} {registry : Registry}
    {s₀ s : Session} {h : List Call} {i c : Nat} (h₀ : Session.new config registry = .ok s₀)
    (hpolicy : config.dispatch.parentPolicy = .nearestEnabledAncestor)
    (hu : ∀ m ∈ registry.mappers, m.Uniform) (hist : History listing s₀ h s)
    (hsched : Scheduled i h) :
    ∀ e ∈ eventsIn i (Call.offered c) h, ∃ pre k post op l, h = pre ++ k :: post ∧
      k.step = .start i op ∧ op.id = e.descriptor.id ∧ Lineage (startsIn i pre) op.parent l ∧
      (∀ p, e.descriptor.parent = some p ↔
        NearestIn l (PublishedTo i pre c) (fun x => ¬ RefusedIn i pre x) p) ∧
      ((∀ p, e.descriptor.parent = some p ↔
        NearestIn l (PublishedTo i pre c) (fun _ => True) p) ↔ ¬ Severed i pre c l) := by
  have hfresh := Session.fresh_of_new h₀
  intro e he
  obtain ⟨pre, k, post, op, l, rfl, hst, hid, hl, hsees⟩ :=
    hist.event_sees hfresh hu hsched.ordered he
  have hpre := hist.split.1
  have hall := hsched.allowed
  rw [hst] at hall
  obtain ⟨-, hpar⟩ := hall rfl
  have hsched₀ := hsched.of_append
  have hunfinished : ∀ x ∈ l, x ∉ finishesIn i pre :=
    hsched₀.lineage_unfinished hl fun x hx => (hpar x hx).2
  have hlive : ∀ x ∈ l, LiveAfter i pre x ↔ ¬ RefusedIn i pre x := fun x hx =>
    hsched₀.liveAfter_iff hpre (hl.started x hx) (hunfinished x hx)
  have hparent : ∀ p, e.descriptor.parent = some p ↔
      NearestIn l (PublishedTo i pre c) (fun x => ¬ RefusedIn i pre x) p := by
    intro p
    rw [hsees p, hpolicy]
    exact nearestIn_congr (fun _ _ => Iff.rfl) hlive
  have hunrefused : ∀ {p}, NearestIn l (PublishedTo i pre c) (fun x => ¬ RefusedIn i pre x) p ↔ _ :=
    nearestIn_unrefused_iff hpre hsched₀.ordered
  refine ⟨pre, k, post, op, l, rfl, hst, hid, hl, hparent, ?_, fun hnot p => ?_⟩
  · intro hexact hsevered
    have hsevered' := hsevered
    obtain ⟨l₁, p, l₂, heq, hpub, hhidden, -⟩ := hsevered'
    have hp : e.descriptor.parent = some p :=
      (hexact p).mpr ⟨l₁, l₂, heq, hpub, hhidden, fun _ _ => trivial⟩
    exact (hunrefused.mp ((hparent p).mp hp)).2 hsevered
  · rw [hparent p, hunrefused]
    exact and_iff_left hnot

/-- Work of a build whose category is that of a task, which its mapper refuses. -/
def sampleRefused (id : UInt64) (parent : Option OperationId) : StartSignal :=
  .new ⟨id⟩ parent (some .task) (.ofRunBuildWork ⟨":"⟩) default

/-- An item starts below refused work, and another below it. -/
theorem parents_up_to_refusals_of_two :
    ∃ (s₀ s : Session) (h : List Call),
      Session.new default .builtIn = .ok s₀ ∧ History .inOrder s₀ h s ∧ Scheduled 0 h ∧
      (eventsIn 0 (Call.offered 0) h).length = 4 ∧
      ∀ e ∈ eventsIn 0 (Call.offered 0) h, ∃ pre k post op l, h = pre ++ k :: post ∧
        k.step = .start 0 op ∧ op.id = e.descriptor.id ∧ Lineage (startsIn 0 pre) op.parent l ∧
        (∀ p, e.descriptor.parent = some p ↔
          NearestIn l (PublishedTo 0 pre 0) (fun x => ¬ RefusedIn 0 pre x) p) ∧
        ((∀ p, e.descriptor.parent = some p ↔
          NearestIn l (PublishedTo 0 pre 0) (fun _ => True) p) ↔ ¬ Severed 0 pre 0 l) :=
  let s₀ := sampleSession .nearestEnabledAncestor 1024
  let steps : List Step := [.connect ⟨"a"⟩ .all, .begin ⟨"x"⟩, .start 0 (sampleRefused 1 none),
    .start 0 (sampleItem 2 (some ⟨1⟩)), .start 0 (sampleItem 3 (some ⟨2⟩)),
    .finish 0 ⟨⟨3⟩, default, .success⟩, .finish 0 ⟨⟨2⟩, default, .success⟩]
  have h₀ : Session.new default .builtIn = .ok s₀ := rfl
  have hu : ∀ m ∈ Registry.builtIn.mappers, m.Uniform := fun _ hm => Mapper.uniform_of_mem_builtIn hm
  have hist := Session.history_calls .inOrder steps s₀
  have hsched : Scheduled 0 (s₀.calls .inOrder steps) := by decide
  ⟨s₀, _, _, h₀, hist, hsched, by decide, parents_up_to_refusals h₀ rfl hu hist hsched⟩

/-- A client that asks for work items alone is told of an item without a parent,
although it was told of the item two above it: work in between was refused,
which another client asks for. -/
theorem parent_lost_beyond_refusal :
    ∃ (s₀ s : Session) (h : List Call) (e : Event),
      Session.new default .builtIn = .ok s₀ ∧ History .inOrder s₀ h s ∧ Scheduled 0 h ∧
      Lineage (startsIn 0 h) (some ⟨2⟩) [⟨2⟩, ⟨1⟩] ∧
      NearestIn [⟨2⟩, ⟨1⟩] (PublishedTo 0 h 0) (fun _ => True) ⟨1⟩ ∧
      (∃ op ∈ startsIn 0 h, op.id = e.descriptor.id ∧ op.parent = some ⟨2⟩) ∧
      e ∈ eventsIn 0 (Call.offered 0) h ∧ e.descriptor.parent = none := by
  let s₀ := sampleSession .nearestEnabledAncestor 1024
  let steps : List Step := [.connect ⟨"a"⟩ (.ofList [.workItem]), .connect ⟨"b"⟩ .all,
    .begin ⟨"x"⟩, .start 0 (sampleItem 1 none), .start 0 (sampleRefused 2 (some ⟨1⟩)),
    .start 0 (sampleItem 3 (some ⟨2⟩)), .finish 0 ⟨⟨3⟩, default, .success⟩,
    .finish 0 ⟨⟨2⟩, default, .success⟩, .finish 0 ⟨⟨1⟩, default, .success⟩]
  let h := s₀.calls .inOrder steps
  have h₀ : Session.new default .builtIn = .ok s₀ := rfl
  have hist := Session.history_calls .inOrder steps s₀
  have hsched : Scheduled 0 h := by decide
  have hlineage : Lineage (startsIn 0 h) (some ⟨2⟩) [⟨2⟩, ⟨1⟩] := by
    have hone : ∃ op ∈ startsIn 0 h, op.id = ⟨1⟩ ∧ op.parent = none := by decide
    have htwo : ∃ op ∈ startsIn 0 h, op.id = ⟨2⟩ ∧ op.parent = some ⟨1⟩ := by decide
    obtain ⟨op₁, hop₁, hid₁, hpar₁⟩ := hone
    obtain ⟨op₂, hop₂, hid₂, hpar₂⟩ := htwo
    rw [← hid₂, ← hid₁]
    apply Lineage.step hop₂
    rw [hpar₂, ← hid₁]
    apply Lineage.step hop₁
    rw [hpar₁]
    exact .root
  have hpublished : PublishedTo 0 h 0 ⟨1⟩ := by
    have hone : ∃ k ∈ h, ∃ op ∈ k.step.start? 0, op.id = ⟨1⟩ ∧ k.offered 0 ≠ [] := by decide
    obtain ⟨k, hk, op, hop, hid, hne⟩ := hone
    exact ⟨k, hk, op, Step.start?_eq_some.mp hop, hid, hne⟩
  have hhidden : ¬ PublishedTo 0 h 0 ⟨2⟩ := by
    rintro ⟨k, hk, op, hst, hid, hne⟩
    have htwo : ∀ k ∈ h, ∀ op ∈ k.step.start? 0, op.id = ⟨2⟩ → k.offered 0 = [] := by decide
    exact hne (htwo k hk op (Step.start?_eq_some.mpr hst) hid)
  have hnearest : NearestIn [⟨2⟩, ⟨1⟩] (PublishedTo 0 h 0) (fun _ => True) ⟨1⟩ := by
    refine ⟨[⟨2⟩], [], rfl, hpublished, fun x hx => ?_, fun _ _ => trivial⟩
    rw [List.mem_singleton.mp hx]
    exact hhidden
  have hevent : ∃ e ∈ eventsIn 0 (Call.offered 0) h,
      (∃ op ∈ startsIn 0 h, op.id = e.descriptor.id ∧ op.parent = some ⟨2⟩) ∧
        e.descriptor.parent = none := by decide
  obtain ⟨e, he, hop, hnone⟩ := hevent
  exact ⟨s₀, _, h, e, h₀, hist, hsched, hlineage, hnearest, hop, he, hnone⟩

end BuildFeed
