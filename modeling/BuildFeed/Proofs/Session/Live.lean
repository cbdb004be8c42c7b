/-
# Live operations and the history

What a build keeps of its operations can be told from the history alone, as
long as the build is open: an operation is live if it was started without an
error and not finished since (`Opened`), and what is kept of it is what the
call that started it recorded (`LiveTable.Follows`). In particular a connection
is shown what the start offered to the connection (`Build.Reflects`).

Key definitions: `Step.start?`, `startsIn`, `Opened`, `LiveAfter`,
`PublishedTo`, `LiveTable.Follows`, `Call.First`, `Build.Reflects`.
Key theorems: `History.build_invariant`, `History.keyed`, `History.follows`,
`History.reflects`, `Build.Reflects.publishedTo_iff`.
-/
import BuildFeed.Proofs.Build.Lineage
import BuildFeed.Proofs.Build.States
import BuildFeed.Proofs.Session.Moves

namespace BuildFeed

/-- The operation that a step starts in a build. -/
def Step.start? (i : Nat) : Step → Option StartSignal
  | .start j op => if j = i then some op else none
  | _ => none

theorem Step.start?_eq_some {i : Nat} {st : Step} {op : StartSignal} :
    st.start? i = some op ↔ st = .start i op := by
  cases st <;> simp [start?]

/-- The operations that were started in a build, in order. -/
def startsIn (i : Nat) (h : List Call) : List StartSignal := h.filterMap (·.step.start? i)

@[simp] theorem startsIn_append (i : Nat) (h h' : List Call) :
    startsIn i (h ++ h') = startsIn i h ++ startsIn i h' := List.filterMap_append

theorem mem_startsIn {i : Nat} {h : List Call} {op : StartSignal} :
    op ∈ startsIn i h ↔ ∃ k ∈ h, k.step = .start i op := by
  simp only [startsIn, List.mem_filterMap, Step.start?_eq_some]

/-- An operation is live by a call: the call started it without an error, and
it was not finished since. -/
def Opened (i : Nat) (h : List Call) (x : OperationId) (k : Call) (op : StartSignal) : Prop :=
  ∃ pre post, h = pre ++ k :: post ∧ k.step = .start i op ∧ op.id = x ∧
    k.outcome.reply = .signalled (.ok ()) ∧ ∀ k' ∈ post, ∀ f, k'.step = .finish i f → f.id ≠ x

/-- An operation was started without an error, and it was not finished since. -/
def LiveAfter (i : Nat) (h : List Call) (x : OperationId) : Prop := ∃ k op, Opened i h x k op

/-- The start of an operation was published to a connection. -/
def PublishedTo (i : Nat) (h : List Call) (c : Nat) (x : OperationId) : Prop :=
  ∃ k ∈ h, ∃ op, k.step = .start i op ∧ op.id = x ∧ k.offered c ≠ []

theorem PublishedTo.mono {i c : Nat} {h h' : List Call} {x : OperationId} (hp : PublishedTo i h c x)
    (hsub : h ⊆ h') : PublishedTo i h' c x := by
  obtain ⟨k, hk, hrest⟩ := hp
  exact ⟨k, hsub hk, hrest⟩

theorem startsIn_subset {i : Nat} {h h' : List Call} (hsub : h ⊆ h') : startsIn i h ⊆ startsIn i h' := by
  intro op hop
  obtain ⟨k, hk, hst⟩ := mem_startsIn.mp hop
  exact mem_startsIn.mpr ⟨k, hsub hk, hst⟩

namespace Opened

variable {i : Nat} {h : List Call} {x : OperationId} {k k' : Call} {op : StartSignal}

theorem mem (ho : Opened i h x k op) : k ∈ h := by
  obtain ⟨pre, post, rfl, -⟩ := ho
  simp

theorem step_eq (ho : Opened i h x k op) : k.step = .start i op := by
  obtain ⟨pre, post, -, hst, -⟩ := ho
  exact hst

theorem id_eq (ho : Opened i h x k op) : op.id = x := by
  obtain ⟨pre, post, -, -, hid, -⟩ := ho
  exact hid

/-- What is live after one more call was live before or is started by it. -/
theorem snoc_iff : Opened i (h ++ [k']) x k op ↔
    (Opened i h x k op ∧ ∀ f, k'.step = .finish i f → f.id ≠ x) ∨
      (k = k' ∧ k'.step = .start i op ∧ op.id = x ∧ k'.outcome.reply = .signalled (.ok ())) := by
  constructor
  · rintro ⟨pre, post, hh, hst, hid, hok, hpost⟩
    rcases split_of_snoc hh with ⟨rfl, rfl, rfl⟩ | ⟨post', rfl, rfl⟩
    · exact Or.inr ⟨rfl, hst, hid, hok⟩
    · exact Or.inl ⟨⟨pre, post', rfl, hst, hid, hok, fun k'' hk'' =>
        hpost k'' (List.mem_append_left _ hk'')⟩, hpost k' (by simp)⟩
  · rintro (⟨⟨pre, post, rfl, hst, hid, hok, hpost⟩, hf⟩ | ⟨rfl, hst, hid, hok⟩)
    · refine ⟨pre, post ++ [k'], by simp, hst, hid, hok, fun k'' hk'' => ?_⟩
      rcases List.mem_append.mp hk'' with hk'' | hk''
      · exact hpost k'' hk''
      · exact List.mem_singleton.mp hk'' ▸ hf
    · exact ⟨h, [], rfl, hst, hid, hok, fun _ hk => absurd hk (by simp)⟩

theorem keep (ho : Opened i h x k op) (hf : ∀ f, k'.step = .finish i f → f.id ≠ x) :
    Opened i (h ++ [k']) x k op := snoc_iff.mpr (Or.inl ⟨ho, hf⟩)

end Opened

/-- No two calls start one operation. -/
theorem Ordered.call_unique {i : Nat} {h : List Call} (hord : Ordered (startsIn i h)) {k k' : Call}
    {op op' : StartSignal} (hk : k ∈ h) (hk' : k' ∈ h) (hst : k.step = .start i op)
    (hst' : k'.step = .start i op') (hid : op.id = op'.id) : k = k' := by
  obtain rfl := hord.eq_of_id (mem_startsIn.mpr ⟨k, hk, hst⟩) (mem_startsIn.mpr ⟨k', hk', hst'⟩) hid
  exact eq_of_nodup_filterMap hord.nodup.of_map hk hk' (Step.start?_eq_some.mpr hst)
    (Step.start?_eq_some.mpr hst')

/-- An operation that was started is found among the starts. -/
theorem LiveAfter.started {i : Nat} {h : List Call} {x : OperationId} (hl : LiveAfter i h x) :
    ∃ op ∈ startsIn i h, op.id = x := by
  obtain ⟨k, op, ho⟩ := hl
  exact ⟨op, mem_startsIn.mpr ⟨k, ho.mem, ho.step_eq⟩, ho.id_eq⟩

/-! ### What a build keeps -/

/-- The live operations of a table are those that were started without an error
and not finished since, and what is kept of each has to do with the call that
started it. -/
structure LiveTable.Follows (Q : Call → StartSignal → Entry → Prop) (i : Nat) (h : List Call)
    (t : LiveTable) : Prop where
  live : ∀ x e, t.get? x = some e → LiveAfter i h x
  kept : ∀ x k op, Opened i h x k op → ∃ e, t.get? x = some e ∧ Q k op e

namespace LiveTable.Follows

variable {Q : Call → StartSignal → Entry → Prop} {i : Nat} {h : List Call} {t : LiveTable} {k : Call}

theorem opened (hf : t.Follows Q i h) {x : OperationId} {e : Entry} (he : t.get? x = some e) :
    ∃ k op, Opened i h x k op ∧ Q k op e := by
  obtain ⟨k, op, ho⟩ := hf.live x e he
  obtain ⟨e', he', hq⟩ := hf.kept x k op ho
  obtain rfl := Option.some.inj (he.symm.trans he')
  exact ⟨k, op, ho, hq⟩

theorem live_iff (hf : t.Follows Q i h) (x : OperationId) :
    LiveAfter i h x ↔ ∃ e, t.get? x = some e := by
  constructor
  · rintro ⟨k, op, ho⟩
    obtain ⟨e, he, -⟩ := hf.kept x k op ho
    exact ⟨e, he⟩
  · rintro ⟨e, he⟩
    exact hf.live x e he

/-- A call that neither starts nor finishes an operation changes nothing. -/
theorem keep (hf : t.Follows Q i h) (hs : ∀ op, k.step = .start i op →
    k.outcome.reply ≠ .signalled (.ok ())) (hfin : ∀ f, k.step ≠ .finish i f) :
    t.Follows Q i (h ++ [k]) := by
  constructor
  · intro x e he
    obtain ⟨k', op, ho⟩ := hf.live x e he
    exact ⟨k', op, ho.keep fun f hst => absurd hst (hfin f)⟩
  · intro x k' op ho
    rcases Opened.snoc_iff.mp ho with ⟨ho, -⟩ | ⟨-, hst, -, hok⟩
    · exact hf.kept x k' op ho
    · exact absurd hok (hs op hst)

/-- A start that records its operation. -/
theorem insert (hf : t.Follows Q i h) {op : StartSignal} {e : Entry} (hst : k.step = .start i op)
    (hok : k.outcome.reply = .signalled (.ok ())) (hnone : t.get? op.id = none) (hq : Q k op e) :
    (t.insert op.id e).Follows Q i (h ++ [k]) := by
  have hfin : ∀ f, k.step ≠ .finish i f := fun f hst' => by
    rw [hst] at hst'
    exact absurd hst' (by simp)
  constructor
  · intro x e' he'
    rw [get?_insert] at he'
    by_cases hx : x = op.id
    · exact ⟨k, op, Opened.snoc_iff.mpr (Or.inr ⟨rfl, hst, hx.symm, hok⟩)⟩
    · rw [if_neg hx] at he'
      obtain ⟨k', op', ho⟩ := hf.live x e' he'
      exact ⟨k', op', ho.keep fun f hst' => absurd hst' (hfin f)⟩
  · intro x k' op' ho
    rw [get?_insert]
    rcases Opened.snoc_iff.mp ho with ⟨ho, -⟩ | ⟨rfl, hst', rfl, -⟩
    · -- what was live before is another operation
      obtain ⟨e', he', hq'⟩ := hf.kept x k' op' ho
      have hx : x ≠ op.id := by
        rintro rfl
        rw [hnone] at he'
        exact absurd he' (by simp)
      rw [if_neg hx]
      exact ⟨e', he', hq'⟩
    · rw [hst, Step.start.injEq] at hst'
      obtain ⟨-, rfl⟩ := hst'
      exact ⟨e, if_pos rfl, hq⟩

/-- A finish that forgets its operation. -/
theorem erase (hf : t.Follows Q i h) {f : FinishSignal} (hst : k.step = .finish i f) :
    (t.erase f.id).Follows Q i (h ++ [k]) := by
  have hfin : ∀ f', k.step = .finish i f' → f' = f := fun f' hst' => by
    rw [hst, Step.finish.injEq] at hst'
    exact hst'.2.symm
  constructor
  · intro x e he
    rw [get?_erase] at he
    by_cases hx : x = f.id
    · rw [if_pos hx] at he
      exact absurd he (by simp)
    · rw [if_neg hx] at he
      obtain ⟨k', op, ho⟩ := hf.live x e he
      exact ⟨k', op, ho.keep fun f' hst' => hfin f' hst' ▸ fun h => hx h.symm⟩
  · intro x k' op ho
    rw [get?_erase]
    rcases Opened.snoc_iff.mp ho with ⟨ho, hne⟩ | ⟨-, hst', -⟩
    · rw [if_neg fun hx => hne f hst hx.symm]
      exact hf.kept x k' op ho
    · rw [hst] at hst'
      exact absurd hst' (by simp)

/-- A start in an open build, which fails or records its operation. -/
theorem start {Q : BuildId → List Nat → Call → StartSignal → Entry → Prop} {registry : Registry}
    {policy : ParentPolicy} {hub : Hub} {b : Build} {op : StartSignal} {t : Turn}
    (hf : b.live.Follows (Q b.id b.audience) i h) (ho : b.closed = false)
    (ht : b.start registry policy hub op = some t) (hst : k.step = .start i op)
    (hr : k.outcome.reply = .signalled t.result)
    (hrec : b.live.get? op.id = none → (∃ e, t.build = b ∧ t.result = .error e) ∨
      ∃ e, t.build = { b with live := b.live.insert op.id e } ∧ t.result = .ok () ∧
        Q b.id b.audience k op e) :
    t.build.live.Follows (Q t.build.id t.build.audience) i (h ++ [k]) := by
  have hfailed : ∀ e, t.build = b → t.result = .error e →
      t.build.live.Follows (Q t.build.id t.build.audience) i (h ++ [k]) := by
    intro e hbuild hresult
    rw [hbuild]
    apply hf.keep
    · intro op' _
      rw [hr, hresult]
      simp
    · intro f hst'
      rw [hst] at hst'
      exact absurd hst' (by simp)
  cases hl : b.live.get? op.id with
  | some e =>
    rw [Build.start_of_live _ _ _ ho hl, Option.some.injEq] at ht
    subst ht
    exact hfailed _ rfl rfl
  | none =>
    rcases hrec hl with ⟨e, hbuild, hresult⟩ | ⟨e, hbuild, hresult, hq⟩
    · exact hfailed e hbuild hresult
    · rw [hbuild]
      exact hf.insert hst (by rw [hr, hresult]) hl hq

/-- Nothing is live of which no start is known. -/
theorem of_none (hn : ∀ x, ¬ LiveAfter i h x) : Follows Q i h [] :=
  ⟨fun x e he => absurd he (by simp), fun x k op ho => absurd ⟨k, op, ho⟩ (hn x)⟩

end LiveTable.Follows

/-- A call starts an operation that is not live in an open build. -/
structure Call.First (registry : Registry) (i : Nat) (k : Call) (op : StartSignal) (b : Build)
    (t : Turn) : Prop where
  step_eq : k.step = .start i op
  build_eq : k.before.build? i = some b
  sound : b.Sound
  opened : b.closed = false
  fresh : b.live.get? op.id = none
  start_eq : b.start registry k.before.policy k.before.hub op = some t
  registry_eq : k.before.registry = registry
  offers_eq : k.outcome.offers = t.offers

/-- The live operations of a build are those of the history. -/
structure Build.Reflects (b : Build) (registry : Registry) (i : Nat) (h : List Call) : Prop where
  /-- A live operation was started by a call, which offered what is kept of it. -/
  opened : ∀ x e, b.live.get? x = some e → ∃ k op, Opened i h x k op ∧ e.parent = op.parent ∧
    (∀ c, k.offered c = ((e.shown (b.slotOf c)).map (·.started b.id)).toList) ∧
    ∀ slot sh, e.shown slot = some sh → sh.Made registry op
  /-- What was started and not finished is live. -/
  live : ∀ x, LiveAfter i h x → ∃ e, b.live.get? x = some e

namespace Build.Reflects

variable {registry : Registry} {i : Nat} {h : List Call} {k : Call} {b : Build}

theorem live_iff (hr : b.Reflects registry i h) (x : OperationId) :
    LiveAfter i h x ↔ ∃ e, b.live.get? x = some e := by
  refine ⟨hr.live x, fun ⟨e, he⟩ => ?_⟩
  obtain ⟨k, op, ho, -⟩ := hr.opened x e he
  exact ⟨k, op, ho⟩

theorem knows (hr : b.Reflects registry i h) : b.live.Knows (startsIn i h) := by
  intro x e he
  obtain ⟨k, op, ho, hpar, -, -⟩ := hr.opened x e he
  exact ⟨op, mem_startsIn.mpr ⟨k, ho.mem, ho.step_eq⟩, ho.id_eq, hpar⟩

/-- A live operation was published to a connection exactly if the build says so. -/
theorem publishedTo_iff (hr : b.Reflects registry i h) (hord : Ordered (startsIn i h)) {x : OperationId}
    {e : Entry} (he : b.live.get? x = some e) (c : Nat) :
    PublishedTo i h c x ↔ e.reached (b.slotOf c) = true := by
  obtain ⟨k, op, ho, -, hoff, -⟩ := hr.opened x e he
  have hoffered : k.offered c ≠ [] ↔ e.reached (b.slotOf c) = true := by
    rw [hoff c, Entry.reached_eq]
    cases e.shown (b.slotOf c) <;> simp
  rw [← hoffered]
  constructor
  · rintro ⟨k', hk', op', hst', hid', hne⟩
    rwa [hord.call_unique ho.mem hk' ho.step_eq hst' (ho.id_eq.trans hid'.symm)]
  · exact fun hne => ⟨k, ho.mem, op, ho.step_eq, ho.id_eq, hne⟩

/-- What a connection was told of the start of a live operation is kept. -/
theorem shown_of_start (hr : b.Reflects registry i h) (hord : Ordered (startsIn i h)) {c : Nat}
    {op : StartSignal} (hk : k ∈ h) (hst : k.step = .start i op) (hl : LiveAfter i h op.id)
    {build : BuildId} {t : Time.Instant} {d : Descriptor}
    (hm : .event build (.started t d) ∈ k.offered c) :
    ∃ e sh, b.live.get? op.id = some e ∧ e.shown (b.slotOf c) = some sh ∧ sh.descriptor = d ∧
      sh.Made registry op := by
  obtain ⟨e, he⟩ := hr.live _ hl
  obtain ⟨k', op', ho, -, hoff, hmade⟩ := hr.opened _ e he
  have hop : op = op' :=
    hord.eq_of_id (mem_startsIn.mpr ⟨k, hk, hst⟩) (mem_startsIn.mpr ⟨k', ho.mem, ho.step_eq⟩)
      ho.id_eq.symm
  have hcall : k = k' := hord.call_unique hk ho.mem hst ho.step_eq ho.id_eq.symm
  rw [hcall, hoff c, Option.mem_toList, Option.map_eq_some_iff] at hm
  obtain ⟨sh, hshown, hsh⟩ := hm
  obtain ⟨-, hev⟩ := Message.event.inj hsh
  obtain ⟨-, hd⟩ := Event.started.inj hev
  exact ⟨e, sh, he, hshown, hd, hop ▸ hmade _ sh hshown⟩

end Build.Reflects

namespace History

variable {listing : Listing} {config : Config} {registry : Registry} {s₀ s : Session}
  {h : List Call} {i : Nat}

/-- Calls are made on builds that have begun. -/
theorem build_lt (hist : History listing s₀ h s) :
    s₀.builds.length ≤ s.builds.length ∧
      ∀ k ∈ h, ∀ i, k.step.build? = some i → i < s.builds.length := by
  induction hist with
  | nil => exact ⟨Nat.le_refl _, fun k hk => absurd hk (by simp)⟩
  | @snoc h s st a hist hs ih =>
    obtain ⟨hle, hlt⟩ := ih
    have he := Session.step_eq_ok.mp hs
    have hlen : s.builds.length ≤ a.session.builds.length := he.length_builds_le
    refine ⟨hle.trans hlen, fun k hk i hi => ?_⟩
    rcases List.mem_append.mp hk with hk | hk
    · exact (hlt k hk i hi).trans_le hlen
    · rw [List.mem_singleton.mp hk] at hi
      refine Nat.lt_of_lt_of_le ?_ hlen
      cases Session.effect_on_build he i with
      | begun => simp [Step.build?] at hi
      | other hst => exact absurd hi hst
      | start hb => exact (List.getElem?_eq_some_iff.mp (Session.build?_eq_some.mp hb)).1
      | finish hb => exact (List.getElem?_eq_some_iff.mp (Session.build?_eq_some.mp hb)).1
      | close hb => exact (List.getElem?_eq_some_iff.mp (Session.build?_eq_some.mp hb)).1
      | drop hb => exact (List.getElem?_eq_some_iff.mp (Session.build?_eq_some.mp hb)).1

/-- What holds of a build when it begins, and is kept by every call on it, holds of
the build. -/
theorem build_invariant (h₀ : s₀.Fresh config registry) (hist : History listing s₀ h s)
    {P : Build → Prop} (hbegin : ∀ id audience, P (.begin id audience))
    (hstart : ∀ k ∈ h, ∀ op b t, k.step = .start i op → k.before.build? i = some b →
      b.start k.before.registry k.before.policy k.before.hub op = some t → P b → P t.build)
    (hfinish : ∀ hub f b, b.Sound → P b → P (b.finish hub f).build)
    (hclose : ∀ k ∈ h, ∀ reason b, k.step = .close i reason → P b →
      P (b.close k.before.hub reason).build) :
    ∀ {b : Build}, s.build? i = some b → P b := by
  induction hist with
  | nil =>
    intro b hb
    rw [h₀.build?_eq_none] at hb
    exact absurd hb (by simp)
  | @snoc h s st a hist hs ih =>
    have ih := @ih (fun k hk => hstart k (List.mem_append_left _ hk)) fun k hk =>
      hclose k (List.mem_append_left _ hk)
    have hstart := hstart ⟨s, st, a⟩ (by simp)
    have hclose := hclose ⟨s, st, a⟩ (by simp)
    have hsound := hist.sound h₀.sound
    intro b' hb'
    cases Session.effect_on_build (Session.step_eq_ok.mp hs) i with
    | begun _ hb =>
      rw [hb, Option.some.injEq] at hb'
      exact hb' ▸ hbegin _ _
    | other _ hb => exact ih (hb ▸ hb')
    | @start op b t a hi ht hb =>
      rw [hb, Option.some.injEq] at hb'
      exact hb' ▸ hstart op b t rfl hi ht (ih hi)
    | @finish f b a hi hb =>
      rw [hb, Option.some.injEq] at hb'
      exact hb' ▸ hfinish s.hub f b (hsound i b hi) (ih hi)
    | @close reason b a hi hb =>
      rw [hb, Option.some.injEq] at hb'
      exact hb' ▸ hclose reason b rfl (ih hi)
    | drop _ hb =>
      rw [hb] at hb'
      exact absurd hb' (by simp)

/-- What holds of no operations, and is kept by every finish and by every start of
the history that adds an operation, holds of the live operations of a build. -/
theorem live_invariant (h₀ : s₀.Fresh config registry) (hist : History listing s₀ h s)
    {P : LiveTable → Prop} (hnil : P []) (herase : ∀ t x, P t → P (t.erase x))
    (hinsert : ∀ k ∈ h, ∀ op b e, k.step = .start i op → k.before.build? i = some b → P b.live →
      b.live.get? op.id = none → e.parent = op.parent → P (b.live.insert op.id e)) :
    ∀ {b : Build}, s.build? i = some b → P b.live := by
  apply hist.build_invariant (P := fun b => P b.live) h₀
  · intro id audience
    exact hnil
  · intro k hk op b t hst hi ht hb
    rcases Build.live_start ht with hl | ⟨hnone, e, hp, hl⟩
    · exact hl ▸ hb
    · exact hl ▸ hinsert k hk op b e hst hi hb hnone hp
  · intro hub f b hs hb
    rcases Build.live_finish hub f hs with hl | hl
    · exact hl ▸ hb
    · exact hl ▸ herase _ _ hb
  · intro k hk reason b hst hb
    rcases Build.live_close k.before.hub reason b with hl | hl
    · exact hl ▸ hb
    · exact hl ▸ hnil

/-- No id is live twice in a build. -/
theorem keyed (h₀ : s₀.Fresh config registry) (hist : History listing s₀ h s) :
    ∀ {b : Build}, s.build? i = some b → b.live.Keyed :=
  hist.live_invariant (P := LiveTable.Keyed) h₀ List.nodup_nil (fun _ x hk => hk.erase x)
    fun _ _ _ _ e _ _ hk hnone _ => hk.insert hnone e

/-- A build that has just begun has no history. -/
theorem liveAfter_lt {x : OperationId} (hist : History listing s₀ h s) (hl : LiveAfter i h x) :
    i < s.builds.length := by
  obtain ⟨k, op, ho⟩ := hl
  exact hist.build_lt.2 k ho.mem i (by rw [ho.step_eq]; rfl)

/-- As long as a build is open, its live operations are those that the history
has started, and what is kept of each is what its start recorded. -/
theorem follows {Q : BuildId → List Nat → Call → StartSignal → Entry → Prop} (h₀ : s₀.Fresh config registry)
    (hist : History listing s₀ h s)
    (hrec : ∀ k ∈ h, ∀ op b t, k.First registry i op b t →
      (∃ e, t.build = b ∧ t.result = .error e) ∨
        ∃ e, t.build = { b with live := b.live.insert op.id e } ∧ t.result = .ok () ∧
          Q b.id b.audience k op e) :
    ∀ {b : Build}, s.build? i = some b → b.closed = false →
      b.live.Follows (Q b.id b.audience) i h := by
  induction hist with
  | nil =>
    intro b hb
    rw [h₀.build?_eq_none] at hb
    exact absurd hb (by simp)
  | @snoc h s st a hist hs ih =>
    have ih := @ih fun k hk => hrec k (List.mem_append_left _ hk)
    have hlast := hrec ⟨s, st, a⟩ (by simp)
    have hsound := hist.sound h₀.sound
    have hreg := (hist.settings h₀).1
    intro b' hb' ho'
    cases Session.effect_on_build (Session.step_eq_ok.mp hs) i with
    | begun hi hb =>
      rw [hb, Option.some.injEq] at hb'
      subst hb'
      refine .of_none fun x ⟨k, op, hk⟩ => ?_
      rcases Opened.snoc_iff.mp hk with ⟨hk, -⟩ | ⟨-, hst, -⟩
      · have hlt := hist.liveAfter_lt ⟨k, op, hk⟩
        omega
      · simp at hst
    | other hst hb =>
      rw [hb] at hb'
      apply (ih hb' ho').keep
      · intro op hst'
        exact absurd (by rw [show st = _ from hst']; rfl) hst
      · intro f hst'
        exact absurd (by rw [show st = _ from hst']; rfl) hst
    | @start op b t a hi ht hb hr ho =>
      rw [hb, Option.some.injEq] at hb'
      subst hb'
      rw [Build.closed_start ht] at ho'
      exact (ih hi ho').start ho' ht rfl hr fun hl =>
        hlast op b t ⟨rfl, hi, hsound i b hi, ho', hl, hreg ▸ ht, hreg, ho⟩
    | @finish f b a hi hb =>
      rw [hb, Option.some.injEq] at hb'
      subst hb'
      rw [Build.closed_finish _ _ (hsound i _ hi)] at ho'
      obtain ⟨hid, haudience, -⟩ := Build.kept_finish s.hub f (hsound i _ hi)
      rw [hid, haudience, Build.live_finish_of_open s.hub f (hsound i _ hi) ho']
      exact (ih hi ho').erase rfl
    | @close reason b a hi hb =>
      rw [hb, Option.some.injEq] at hb'
      rw [← hb', Build.closed_close] at ho'
      exact absurd ho' (by simp)
    | drop _ hb =>
      rw [hb] at hb'
      exact absurd hb' (by simp)

/-- As long as a build is open, it keeps of its operations what their starts
offered. -/
theorem reflects (h₀ : s₀.Fresh config registry) (hf : ∀ m ∈ registry.mappers, m.Faithful)
    (hist : History listing s₀ h s) :
    ∀ {b : Build}, s.build? i = some b → b.closed = false → b.Reflects registry i h := by
  intro b hb ho
  have hfollows := hist.follows (i := i) h₀ (Q := fun id audience k op e => e.parent = op.parent ∧
      (∀ c, k.offered c = ((e.shown (audience.idxOf c)).map (·.started id)).toList) ∧
      ∀ slot sh, e.shown slot = some sh → sh.Made registry op) ?_ hb ho
  · constructor
    · intro x e he
      obtain ⟨k, op, hk, hq⟩ := hfollows.opened he
      exact ⟨k, op, hk, hq⟩
    · exact fun x => (hfollows.live_iff x).mp
  · intro k _ op b t hk
    rcases Build.start_outcome hf hk.sound hk.opened hk.fresh hk.start_eq with ⟨e, href⟩ | ⟨e, hrec⟩
    · exact Or.inl ⟨e, href.unchanged, href.result⟩
    · refine Or.inr ⟨e, hrec.build, hrec.result, hrec.parent, fun c => ?_, hrec.made⟩
      rw [Call.offered, hk.offers_eq]
      exact hrec.offers c

end History

end BuildFeed
