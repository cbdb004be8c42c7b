/-
# Runs in lockstep

Two runs of the same steps agree if both stop for one reason, or all calls of
both return and each is related to the other of its step (`Agree`). To show it
of whole runs, it is enough to follow a relation of the two sessions call by
call (`Session.runBy_agree`). What the calls do is left open, so that a run can
be compared with one in which another function does a step (`Session.runBy`).

Why a call does not return can be told from the handles that there are
(`Session.stop_of_step`).

Key definitions: `Agree`, `Session.runBy`, `Session.stopOf`.
Key theorems: `Agree.trans`, `Session.run_eq_runBy`, `Session.runBy_agree`,
`Session.step_agree`.
-/
import BuildFeed.Proofs.Session.History

namespace BuildFeed

open List (Forall₂)

/-- Two outcomes agree: neither is there, for one reason, or both are and are related. -/
def Agree {α β : Type} (R : α → β → Prop) : Except Stop α → Except Stop β → Prop
  | .ok a, .ok b => R a b
  | .error e, .error e' => e' = e
  | _, _ => False

namespace Agree

variable {α β γ α' β' : Type} {R : α → β → Prop} {x : Except Stop α} {y : Except Stop β}

theorem mono {R' : α → β → Prop} (h : Agree R x y) (hr : ∀ a b, R a b → R' a b) : Agree R' x y := by
  cases x <;> cases y
  · exact h
  · exact h
  · exact h
  · exact hr _ _ h

theorem trans {S : β → γ → Prop} {T : α → γ → Prop} {z : Except Stop γ} (h : Agree R x y)
    (h' : Agree S y z) (ht : ∀ a b c, R a b → S b c → T a c) : Agree T x z := by
  cases x <;> cases y <;> cases z
  · exact Eq.trans h' h
  · exact h'
  · exact h.elim
  · exact h.elim
  · exact h.elim
  · exact h.elim
  · exact h'
  · exact ht _ _ _ h h'

theorem map_iff {R : α' → β' → Prop} {f : α → α'} {g : β → β'} :
    Agree R (x.map f) (y.map g) ↔ Agree (fun a b => R (f a) (g b)) x y := by
  cases x <;> cases y <;> exact Iff.rfl

/-- It is the two outcomes that are related. -/
theorem outcomes (h : Agree R x y) : Agree (fun a b => x = .ok a ∧ y = .ok b ∧ R a b) x y := by
  cases x <;> cases y
  · exact h
  · exact h
  · exact h
  · exact ⟨rfl, rfl, h⟩

end Agree

namespace Session

variable {listing listing' : Listing} {s s' : Session} {st : Step}

/-! ### Runs -/

/-- A run of steps by a function that does one step: what each of them does, in order. -/
def runBy (step : Session → Step → Except Stop Advance) (s : Session) :
    List Step → Except Stop (List Advance)
  | [] => .ok []
  | st :: rest =>
    match step s st with
    | .error e => .error e
    | .ok a =>
      match runBy step a.session rest with
      | .error e => .error e
      | .ok as => .ok (a :: as)

theorem run_eq_runBy (listing : Listing) : ∀ (steps : List Step) (s : Session),
    s.run listing steps = s.runBy (step listing) steps
  | [], _ => rfl
  | st :: rest, s => by
    rw [run, runBy]
    cases s.step listing st with
    | error e => rfl
    | ok a =>
      have ih := run_eq_runBy listing rest a.session
      cases hr : a.session.run listing rest <;> rw [hr] at ih <;> simp only [hr, ← ih]

/-- Two runs agree if a relation that depends on the steps done is kept by every step
to come, and relates what the step does. -/
theorem runBy_agree {step step' : Session → Step → Except Stop Advance}
    {R : List Step → Session → Session → Prop} {A : Advance → Advance → Prop} {steps : List Step}
    (hstep : ∀ done st s s', done ++ [st] <+: steps → R done s s' →
      Agree (fun a a' => A a a' ∧ R (done ++ [st]) a.session a'.session) (step s st) (step' s' st)) :
    ∀ {rest done : List Step} {s s' : Session}, done ++ rest = steps → R done s s' →
      Agree (Forall₂ A) (s.runBy step rest) (s'.runBy step' rest)
  | [], _, _, _, _, _ => Forall₂.nil
  | st :: rest, done, s, s', hsteps, hr => by
    have hsteps' : (done ++ [st]) ++ rest = steps := by rw [← hsteps]; simp
    have hone := hstep done st s s' ⟨rest, hsteps'⟩ hr
    rw [runBy, runBy]
    cases hs : step s st <;> cases hs' : step' s' st <;> rw [hs, hs'] at hone
    · exact hone
    · exact hone.elim
    · exact hone.elim
    · rename_i a a'
      obtain ⟨ha, hr'⟩ := hone
      have hrest := runBy_agree hstep hsteps' hr'
      simp only
      cases hx : a.session.runBy step rest <;> cases hy : a'.session.runBy step' rest <;>
        rw [hx, hy] at hrest
      · exact hrest
      · exact hrest.elim
      · exact hrest.elim
      · exact Forall₂.cons ha hrest

/-! ### Calls that do not return -/

/-- Why a call does not return, if it does not. -/
def stopOf (s : Session) : Step → Stop
  | .connect _ _ => if s.bridge then .queueTooLarge else .noSuchHandle
  | .start i _ => if (s.build? i).isSome then .endlessWalk else .noSuchHandle
  | _ => .noSuchHandle

/-- It does not depend on more than which handles there are. -/
theorem stopOf_congr (hbridge : s'.bridge = s.bridge)
    (hbuild : ∀ i, (s'.build? i).isSome = (s.build? i).isSome) (st : Step) :
    s'.stopOf st = s.stopOf st := by
  cases st <;> simp only [stopOf, hbridge, hbuild]

theorem stop_of_onBridge {e : Stop} {f : Unit → Except Stop Advance}
    (h : s.onBridge f = .error e) : (s.bridge = true ∧ f () = .error e) ∨
      (s.bridge = false ∧ e = .noSuchHandle) := by
  unfold onBridge at h
  cases hb : s.bridge with
  | true => exact Or.inl ⟨rfl, by simpa [hb] using h⟩
  | false => exact Or.inr ⟨rfl, by simpa [hb, eq_comm] using h⟩

theorem stop_of_onBuild {e : Stop} {i : Nat} {f : Build → Except Stop Advance}
    (h : s.onBuild i f = .error e) : (∃ b, s.build? i = some b ∧ f b = .error e) ∨
      (s.build? i = none ∧ e = .noSuchHandle) := by
  unfold onBuild at h
  cases hb : s.build? i with
  | some b => exact Or.inl ⟨b, rfl, by simpa [hb] using h⟩
  | none => exact Or.inr ⟨rfl, by simpa [hb, eq_comm] using h⟩

theorem stop_of_onStream {e : Stop} {i : Nat} {f : Connection → Reply × Connection}
    (h : s.onStream i f = .error e) : e = .noSuchHandle := by
  unfold onStream at h
  cases hx : s.stream? i with
  | some x => simp [hx] at h
  | none => simpa [hx, eq_comm] using h

/-- A call that does not return stops for that reason. -/
theorem stop_of_step {e : Stop} (h : s.step listing st = .error e) : e = s.stopOf st := by
  cases st with
  | connect id subs =>
    rw [step] at h
    rcases stop_of_onBridge h with ⟨hb, h⟩ | ⟨hb, rfl⟩
    · split at h
      · simp [stopOf, hb, ← Except.error.inj h]
      · exact absurd h (by simp)
    · simp [stopOf, hb]
  | disconnect id =>
    rw [step] at h
    rcases stop_of_onBridge h with ⟨-, h⟩ | ⟨-, rfl⟩
    · exact absurd h (by simp)
    · rfl
  | dropStream i => exact stop_of_onStream h
  | drain i => exact stop_of_onStream h
  | receive i => exact stop_of_onStream h
  | dropBridge =>
    rw [step] at h
    rcases stop_of_onBridge h with ⟨-, h⟩ | ⟨-, rfl⟩
    · exact absurd h (by simp)
    · rfl
  | begin id =>
    rw [step] at h
    rcases stop_of_onBridge h with ⟨-, h⟩ | ⟨-, rfl⟩
    · exact absurd h (by simp)
    · rfl
  | start i op =>
    rw [step] at h
    rcases stop_of_onBuild h with ⟨b, hb, h⟩ | ⟨hb, rfl⟩
    · split at h
      · simp [stopOf, hb, ← Except.error.inj h]
      · exact absurd h (by simp)
    · simp [stopOf, hb]
  | finish i f =>
    rw [step] at h
    rcases stop_of_onBuild h with ⟨b, -, h⟩ | ⟨-, rfl⟩
    · exact absurd h (by simp)
    · rfl
  | close i reason =>
    rw [step] at h
    rcases stop_of_onBuild h with ⟨b, -, h⟩ | ⟨-, rfl⟩
    · exact absurd h (by simp)
    · rfl
  | dropBuild i =>
    rw [step] at h
    rcases stop_of_onBuild h with ⟨b, -, h⟩ | ⟨-, rfl⟩
    · exact absurd h (by simp)
    · rfl

/-- Two calls of one step agree if the second can follow the first, returns only if the
first does, and would stop for the same reason. -/
theorem step_agree {R : Advance → Advance → Prop} (hstop : s'.stopOf st = s.stopOf st)
    (hfollow : ∀ a, Effect listing s st a → ∃ a', Effect listing' s' st a' ∧ R a a')
    (hreturn : ∀ a', Effect listing' s' st a' → ∃ a, Effect listing s st a) :
    Agree R (s.step listing st) (s'.step listing' st) := by
  cases hs : s.step listing st with
  | error e =>
    cases hs' : s'.step listing' st with
    | error e' => exact (stop_of_step hs').trans (hstop.trans (stop_of_step hs).symm)
    | ok a' =>
      obtain ⟨a, ha⟩ := hreturn a' (step_eq_ok.mp hs')
      rw [step_eq_ok.mpr ha] at hs
      exact absurd hs (by simp)
  | ok a =>
    obtain ⟨a', ha', hr⟩ := hfollow a (step_eq_ok.mp hs)
    rw [step_eq_ok.mpr ha']
    exact hr

end Session

end BuildFeed
