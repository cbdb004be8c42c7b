/-
# Builds and their messages

A build keeps the id that it was begun with, and the audience that was
attached then (`History.begun`). A message is made by an open build, for a
connection of its audience, and carries the build's id
(`History.made_by`). So if no two builds are begun with one id, all messages
with an id come from calls on one build (`History.build_of_message`), and what
a client is sent of each build can be told apart (`messagesOf`).

Key definitions: `begunIn`, `messagesOf`, `Call.Begins`.
Key theorems: `Session.Effect.begun_or_kept`, `Session.Effect.made_by`,
`History.begun`, `History.made_by`, `History.build_of_message`.
-/
import BuildFeed.Proofs.Session.Events

namespace BuildFeed

/-- The id that a step gives to a new build. -/
def Step.begun? : Step → Option BuildId
  | .begin id => some id
  | _ => none

/-- The ids of the builds that were begun, in order. -/
def begunIn (h : List Call) : List BuildId := h.filterMap (·.step.begun?)

@[simp] theorem begunIn_append (h h' : List Call) : begunIn (h ++ h') = begunIn h ++ begunIn h' :=
  List.filterMap_append

theorem begunIn_nodup_of_append {h h' : List Call} (hids : (begunIn (h ++ h')).Nodup) :
    (begunIn h).Nodup := by
  rw [begunIn_append] at hids
  exact hids.of_append_left

/-- The messages of a build among messages. -/
def messagesOf (build : BuildId) (ms : List Message) : List Message :=
  ms.filter fun m => decide (m.build = build)

@[simp] theorem messagesOf_append (build : BuildId) (ms ms' : List Message) :
    messagesOf build (ms ++ ms') = messagesOf build ms ++ messagesOf build ms' := List.filter_append ..

theorem messagesOf_initial (build : BuildId) {ms ms' : List Message} (h : ms <+: ms') :
    messagesOf build ms <+: messagesOf build ms' := h.filter _

theorem mem_messagesOf {build : BuildId} {ms : List Message} {m : Message} :
    m ∈ messagesOf build ms ↔ m ∈ ms ∧ m.build = build := by
  rw [messagesOf, List.mem_filter, decide_eq_true_eq]

theorem messagesOf_eq_nil {build : BuildId} {ms : List Message} :
    messagesOf build ms = [] ↔ ∀ m ∈ ms, m.build ≠ build := by
  simp [messagesOf]

theorem messagesOf_eq_self {build : BuildId} {ms : List Message} (h : ∀ m ∈ ms, m.build = build) :
    messagesOf build ms = ms := by
  rw [messagesOf, List.filter_eq_self]
  intro m hm
  exact decide_eq_true (h m hm)

/-! ### Which messages a call on a build makes -/

namespace Build

variable {registry : Registry} {policy : ParentPolicy} {hub : Hub} {b : Build} {op : StartSignal}
  {t : Turn} {c : Nat} {m : Message}

theorem mem_fanOut {keep : Nat → Bool} {message : Descriptor → Option Message} {ds : List Delivery}
    {o : Offer} (ho : o ∈ b.fanOut keep message ds) :
    ∃ d ∈ ds, message d.descriptor = some o.message := by
  obtain ⟨d, hd, ho⟩ := List.mem_flatMap.mp ho
  cases hm : message d.descriptor with
  | none => simp [hm] at ho
  | some m =>
    simp only [hm] at ho
    obtain ⟨c, -, rfl⟩ := List.mem_map.mp ho
    exact ⟨d, hd, hm⟩

/-- What a start offers is events of its build, which is open. -/
theorem made_by_start (hs : b.Sound) (h : b.start registry policy hub op = some t)
    (hm : m ∈ messagesTo c t.offers) :
    b.closed = false ∧ c ∈ b.audience ∧ ∃ e, m = .event b.id e := by
  have ho := mem_messagesTo.mp hm
  have haudience : c ∈ b.audience := (proper_start hs h).audience _ ho
  cases startCase_of_start h with
  | @published mapper ps first data d hc =>
    have hfan : ⟨c, m⟩ ∈ fanOut b (fun _ => true)
        (fun d => some (.event b.id (mapper.started d data op))) (deliveries d first (group ps)) := ho
    obtain ⟨d', -, hd⟩ := mem_fanOut hfan
    have hevent : Message.event b.id (mapper.started d'.descriptor data op) = m := Option.some.inj hd
    exact ⟨hc, haudience, _, hevent.symm⟩
  | _ => exact absurd hm (by simp [quiet])

/-- What a start offers is news of what it records. -/
theorem records_of_start (hf : ∀ m ∈ registry.mappers, m.Faithful) (hs : b.Sound)
    (h : b.start registry policy hub op = some t) (hm : m ∈ messagesTo c t.offers) :
    b.closed = false ∧ ∃ e sh, Records registry policy hub b op t e ∧ e.shown (b.slotOf c) = some sh ∧
      m = sh.started b.id := by
  have hoffers : t.offers ≠ [] := by
    intro hnil
    rw [hnil] at hm
    exact absurd hm (by simp)
  cases hc : b.closed with
  | true =>
    rw [start_of_closed _ _ _ _ hc, Option.some.injEq] at h
    exact absurd (h ▸ rfl) hoffers
  | false =>
    cases hl : b.live.get? op.id with
    | some e =>
      rw [start_of_live _ _ _ hc hl, Option.some.injEq] at h
      exact absurd (h ▸ rfl) hoffers
    | none =>
      rcases start_outcome hf hs hc hl h with ⟨e, href⟩ | ⟨e, hrec⟩
      · exact absurd href.offers hoffers
      · rw [hrec.offers c, Option.mem_toList, Option.map_eq_some_iff] at hm
        obtain ⟨sh, hshown, hsh⟩ := hm
        exact ⟨rfl, e, sh, hrec, hshown, hsh.symm⟩

/-- What a start offers is that an operation started. -/
theorem started_of_start (hf : ∀ m ∈ registry.mappers, m.Faithful) (hs : b.Sound)
    (h : b.start registry policy hub op = some t) (hm : m ∈ messagesTo c t.offers) :
    ∃ sh : Showing, m = sh.started b.id := by
  obtain ⟨-, e, sh, -, -, hsh⟩ := records_of_start hf hs h hm
  exact ⟨sh, hsh⟩

/-- What a finish offers is events of its build, which is open. -/
theorem made_by_finish {f : FinishSignal} (hs : b.Sound)
    (hm : m ∈ messagesTo c (b.finish hub f).offers) :
    b.closed = false ∧ c ∈ b.audience ∧ ∃ e, m = .event b.id e := by
  have haudience : c ∈ b.audience := (proper_finish hub f hs).audience _ (mem_messagesTo.mp hm)
  cases hc : b.closed with
  | true =>
    rw [finish_of_closed hc] at hm
    exact absurd hm (by simp [quiet])
  | false =>
    refine ⟨rfl, haudience, ?_⟩
    cases hl : b.live.get? f.id with
    | none =>
      rw [finish_of_unknown hl] at hm
      exact absurd hm (by simp [quiet])
    | some e =>
      rw [(finish_of_live hub hs hc hl).2.2.2 c] at hm
      split at hm
      · obtain ⟨sh, -, hfin⟩ := Option.bind_eq_some_iff.mp (Option.mem_toList.mp hm)
        obtain ⟨data, ev, -, hev⟩ := sh.exists_of_finished hfin
        exact ⟨ev, hev⟩
      · exact absurd hm (by simp)

/-- What the end of a build offers is the end of its stream; the build was open. -/
theorem made_by_close {reason : EndReason} (hs : b.Sound)
    (hm : m ∈ messagesTo c (b.close hub reason).offers) :
    b.closed = false ∧ c ∈ b.audience ∧ m = .endOfStream b.id reason := by
  rw [messagesTo_close hs] at hm
  split at hm
  · rename_i h
    exact ⟨h.1, h.2.1, List.mem_singleton.mp hm⟩
  · exact absurd hm (by simp)

end Build

/-! ### What a call of a session offers -/

namespace Session

variable {listing : Listing} {s : Session} {st : Step} {a : Advance} {i c : Nat} {m : Message}

/-- A build that is there after a call begins with it, or was there before. -/
theorem Effect.begun_or_kept (h : Effect listing s st a) (hs : s.Sound) {b' : Build}
    (hb' : a.session.build? i = some b') :
    (∃ id, st = .begin id ∧ i = s.builds.length ∧
      b' = .begin id (listing.order i s.hub.attachedNumbers)) ∨
        ∃ b, s.build? i = some b ∧ b.Kept b' := by
  cases effect_on_build h i with
  | @begun id a hi hb =>
    exact Or.inl ⟨id, rfl, hi, Option.some.inj (hb'.symm.trans hb)⟩
  | other _ hb => exact Or.inr ⟨b', hb ▸ hb', rfl, rfl, id⟩
  | start hi ht hb =>
    obtain rfl := Option.some.inj (hb.symm.trans hb')
    exact Or.inr ⟨_, hi, Build.kept_start ht⟩
  | finish hi hb =>
    obtain rfl := Option.some.inj (hb.symm.trans hb')
    exact Or.inr ⟨_, hi, Build.kept_finish _ _ (hs i _ hi)⟩
  | close hi hb =>
    obtain rfl := Option.some.inj (hb.symm.trans hb')
    exact Or.inr ⟨_, hi, Build.kept_close _ _ _⟩
  | drop _ hb =>
    rw [hb] at hb'
    exact absurd hb' (by simp)

/-- A message is made by a call on an open build, for a connection of its
audience, and carries the id of the build. -/
theorem Effect.made_by (h : Effect listing s st a) (hs : s.Sound) (hm : m ∈ messagesTo c a.offers) :
    ∃ i b, st.build? = some i ∧ s.build? i = some b ∧ b.closed = false ∧ c ∈ b.audience ∧
      m.build = b.id := by
  cases h with
  | @start i op b t hi ht =>
    obtain ⟨ho, hc, e, rfl⟩ := Build.made_by_start (hs i b hi) ht hm
    exact ⟨i, b, rfl, hi, ho, hc, rfl⟩
  | @finish i f b hi =>
    obtain ⟨ho, hc, e, rfl⟩ := Build.made_by_finish (hs i b hi) hm
    exact ⟨i, b, rfl, hi, ho, hc, rfl⟩
  | @close i reason b hi =>
    obtain ⟨ho, hc, rfl⟩ := Build.made_by_close (hs i b hi) hm
    exact ⟨i, b, rfl, hi, ho, hc, rfl⟩
  | @dropBuild i b hi =>
    obtain ⟨ho, hc, rfl⟩ := Build.made_by_close (hs i b hi) hm
    exact ⟨i, b, rfl, hi, ho, hc, rfl⟩
  | _ => exact absurd hm (by simp)

end Session

/-! ### Where builds come from -/

/-- A call begins a build: with its id, and for the connections attached then. -/
structure Call.Begins (k : Call) (b : Build) : Prop where
  step_eq : k.step = .begin b.id
  audience_iff : ∀ c, c ∈ b.audience ↔ k.before.hub.isAttached c = true

/-- The beginning of a build is seen in its id and its audience. -/
theorem Call.Begins.of_kept {k : Call} {b b' : Build} (hk : k.Begins b) (hb : b.Kept b') :
    k.Begins b' := ⟨hb.id_eq ▸ hk.step_eq, hb.audience_eq ▸ hk.audience_iff⟩

namespace History

variable {listing : Listing} {config : Config} {registry : Registry} {s₀ s : Session}
  {pre post h : List Call} {k : Call} {i c : Nat} {b : Build} {m : Message}

theorem length_begunIn (h₀ : s₀.Fresh config registry) (hist : History listing s₀ h s) :
    (begunIn h).length = s.builds.length := by
  induction hist with
  | nil => simp [begunIn, h₀.builds_eq]
  | @snoc h s st a _ hs ih =>
    rw [begunIn_append, List.length_append, ih]
    cases Session.step_eq_ok.mp hs <;> simp [begunIn, Step.begun?, Session.takeTurn]

/-- A build was begun by a call, and its number is its place among the builds
that were begun. -/
theorem begun (h₀ : s₀.Fresh config registry) (hist : History listing s₀ h s) :
    ∀ {b : Build}, s.build? i = some b → (begunIn h)[i]? = some b.id ∧ ∃ k ∈ h, k.Begins b := by
  induction hist with
  | nil =>
    intro b hb
    rw [h₀.build?_eq_none] at hb
    exact absurd hb (by simp)
  | @snoc h s st a hist hs ih =>
    intro b' hb'
    have heff := Session.step_eq_ok.mp hs
    rcases heff.begun_or_kept (hist.sound h₀.sound) hb' with ⟨id, rfl, hi, rfl⟩ | ⟨b, hb, hkept⟩
    · constructor
      · rw [begunIn_append, hi, ← hist.length_begunIn h₀]
        exact List.getElem?_concat_length ..
      · refine ⟨_, List.mem_append_right _ (List.mem_singleton_self _), rfl, fun c => ?_⟩
        have hperm := listing.perm i s.hub.attachedNumbers
        exact hperm.mem_iff.trans Session.mem_attachedNumbers
    · obtain ⟨hid, k, hk, hbegins⟩ := ih hb
      have hlt : i < (begunIn h).length := (List.getElem?_eq_some_iff.mp hid).1
      refine ⟨?_, k, List.mem_append_left _ hk, hbegins.of_kept hkept⟩
      rw [begunIn_append, List.getElem?_append_left hlt, hid, hkept.id_eq]

/-- A message that a connection is offered is made by a call on an open build,
for which the connection was attached when it began, and carries the id that
it was begun with. -/
theorem made_by (h₀ : s₀.Fresh config registry) (hist : History listing s₀ (pre ++ k :: post) s)
    (hm : m ∈ k.offered c) :
    ∃ i b, k.step.build? = some i ∧ k.before.build? i = some b ∧ b.closed = false ∧
      c ∈ b.audience ∧ m.build = b.id ∧ (begunIn (pre ++ k :: post))[i]? = some m.build := by
  obtain ⟨hpre, hstep, -⟩ := hist.split
  obtain ⟨i, b, hi, hb, ho, hc, hid⟩ :=
    (Session.step_eq_ok.mp hstep).made_by (hpre.sound h₀.sound) hm
  have hplace : (begunIn pre)[i]? = some m.build := by rw [(hpre.begun h₀ hb).1, hid]
  refine ⟨i, b, hi, hb, ho, hc, hid, ?_⟩
  rw [begunIn_append, List.getElem?_append_left (List.getElem?_eq_some_iff.mp hplace).1, hplace]

/-- If all ids of builds are different, the messages of a build are made by calls
on that build. -/
theorem build_of_message (h₀ : s₀.Fresh config registry)
    (hist : History listing s₀ (pre ++ k :: post) s) (hids : (begunIn (pre ++ k :: post)).Nodup)
    (hi : (begunIn (pre ++ k :: post))[i]? = some m.build) (hm : m ∈ k.offered c) :
    k.step.build? = some i := by
  obtain ⟨j, b, hj, -, -, -, -, hplace⟩ := hist.made_by h₀ hm
  have hlt : i < (begunIn (pre ++ k :: post)).length := (List.getElem?_eq_some_iff.mp hi).1
  have hij : i = j := (List.getElem?_inj hlt hids).mp (hi.trans hplace.symm)
  rw [hij]
  exact hj

end History

end BuildFeed
