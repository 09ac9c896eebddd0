/-!
This module contains a small program logic for computations that thread a state and may fail:
`Ensures m Q` says that whenever `m` returns without an error its result satisfies `Q`, and `Yields m Q` that `m` does
return so, from every state. `Ends m Q E` says of a computation without a state how it returns or fails.
-/

structure Ensures {σ ε α : Type} (m : StateT σ (Except ε) α) (Q : α → Prop) : Prop where
  of_run : ∀ (s : σ) (a : α) (s' : σ), m s = .ok (a, s') → Q a

namespace Ensures

variable {σ ε α β : Type}

theorem pure {Q : α → Prop} (h : Q a)
    : Ensures (Pure.pure a : StateT σ (Except ε) α) Q := by
  constructor
  intro s b s' hrun
  cases hrun
  exact h

theorem throw {Q : α → Prop}
    : Ensures (MonadExcept.throw e : StateT σ (Except ε) α) Q := by
  constructor
  intro s a s' hrun
  cases hrun

theorem bind {Q : α → Prop}
    {R : β → Prop} (hm : Ensures m Q) (hf : ∀ (a : α), Q a → Ensures (f a) R)
    : Ensures (m >>= f) R := by
  constructor
  intro s b s' hrun
  simp only [Bind.bind, StateT.bind, Except.bind] at hrun
  split at hrun
  . cases hrun
  . next v hv =>
    exact (hf v.1 (hm.of_run s v.1 v.2 hv)).of_run v.2 b s' hrun

theorem map {Q : β → Prop} (hm : Ensures m (fun a => Q (f a))) : Ensures (f <$> m) Q := by
  constructor
  intro s b s' hrun
  simp only [Functor.map, StateT.map, Bind.bind, Except.bind, Pure.pure, Except.pure] at hrun
  split at hrun
  . cases hrun
  next v hv =>
  cases hrun
  exact hm.of_run s v.1 v.2 hv

theorem mono {Q R : α → Prop} (hm : Ensures m Q) (h : ∀ (a : α), Q a → R a) : Ensures m R := by
  constructor
  intro s a s' hrun
  apply h
  exact hm.of_run s a s' hrun

theorem ite [Decidable c] {Q : α → Prop}
    (hm : c → Ensures m Q) (hn : ¬c → Ensures n Q) : Ensures (if c then m else n) Q := by
  split
  . apply hm
    assumption
  . apply hn
    assumption

theorem bind_congr {Q : α → Prop} (hm : Ensures m Q) (h : ∀ (a : α), Q a → f a = g a) : m >>= f = m >>= g := by
  funext s
  simp only [Bind.bind, StateT.bind, Except.bind]
  split
  . rfl
  . next v hv => rw [h v.1 (hm.of_run s v.1 v.2 hv)]

theorem true (m : StateT σ (Except ε) α) : Ensures m (fun _ => True) := by
  constructor
  intros
  trivial

end Ensures

def Returns {σ ε α : Type} (m : StateT σ (Except ε) α) (s : σ) (a : α) (s' : σ) : Prop := m s = .ok (a, s')

namespace Returns

variable {σ ε α β : Type} {m : StateT σ (Except ε) α} {s s' : σ} {a : α} {b : β}

@[simp]
theorem pure_iff
    : Returns (Pure.pure a : StateT σ (Except ε) α) s a' s' ↔ a = a' ∧ s = s' := by
  show (Except.ok (a, s) : Except ε (α × σ)) = .ok (a', s') ↔ _
  simp only [Except.ok.injEq, Prod.mk.injEq]

@[simp]
theorem throw_iff
    : Returns (MonadExcept.throw e : StateT σ (Except ε) α) s a s' ↔ False := by
  refine iff_of_false ?_ not_false
  intro h
  cases h

@[simp]
theorem bind_iff
    : Returns (m >>= f) s b s' ↔ ∃ a s₁, Returns m s a s₁ ∧ Returns (f a) s₁ b s' := by
  simp only [Returns, Bind.bind, StateT.bind, Except.bind]
  constructor
  . intro h
    split at h
    . cases h
    . next v hv => exact ⟨v.1, v.2, hv, h⟩
  . rintro ⟨a, s₁, hm, hf⟩
    rw [hm]
    exact hf

@[simp]
theorem map_iff
    : Returns (f <$> m) s b s' ↔ ∃ a, Returns m s a s' ∧ f a = b := by
  simp only [Returns, Functor.map, StateT.map, Bind.bind, Except.bind, Pure.pure, Except.pure]
  constructor
  . intro h
    split at h
    . cases h
    next v hv =>
    cases h
    exact ⟨v.1, hv, rfl⟩
  . rintro ⟨a, hm, rfl⟩
    rw [hm]

@[simp]
theorem get_iff
    : Returns (MonadState.get : StateT σ (Except ε) σ) s s₀ s' ↔ s = s₀ ∧ s = s' := by
  simp only [Returns, MonadState.get, getThe, MonadStateOf.get, StateT.get, Pure.pure, Except.pure, Except.ok.injEq,
    Prod.mk.injEq]

@[simp]
theorem ite_iff [Decidable c]
    : Returns (if c then m else n) s a s' ↔ c ∧ Returns m s a s' ∨ ¬c ∧ Returns n s a s' := by
  split
  . next hc => simp only [hc, true_and, not_true_eq_false, false_and, or_false]
  . next hc => simp only [hc, false_and, not_false_eq_true, true_and, false_or]

theorem unique (h : Returns m s a s') (h' : Returns m s a' s'')
    : a = a' ∧ s' = s'' := by
  rw [Returns, h, Except.ok.injEq, Prod.mk.injEq] at h'
  exact h'

end Returns

structure Yields {σ ε α : Type} (m : StateT σ (Except ε) α) (Q : α → Prop) : Prop where
  of_state : ∀ (s : σ), ∃ (a : α) (s' : σ), m s = .ok (a, s') ∧ Q a

namespace Yields

variable {σ ε α β : Type}

theorem pure {Q : α → Prop} (h : Q a)
    : Yields (Pure.pure a : StateT σ (Except ε) α) Q :=
  ⟨fun s => ⟨a, s, rfl, h⟩⟩

theorem bind {Q : α → Prop} {R : β → Prop} (hm : Yields m Q) (hf : ∀ (a : α), Q a → Yields (f a) R)
    : Yields (m >>= f) R := by
  constructor
  intro s
  obtain ⟨a, s₁, hrun, ha⟩ := hm.of_state s
  obtain ⟨b, s₂, hrun', hb⟩ := (hf a ha).of_state s₁
  refine ⟨b, s₂, ?_, hb⟩
  simp only [Bind.bind, StateT.bind, Except.bind, hrun]
  exact hrun'

theorem bind_eq {R : β → Prop} (hm : m = Pure.pure a) (hf : Yields (f a) R)
    : Yields (m >>= f) R := by
  rw [hm, pure_bind]
  exact hf

theorem mono {Q R : α → Prop} (hm : Yields m Q) (h : ∀ (a : α), Q a → R a) : Yields m R := by
  constructor
  intro s
  obtain ⟨a, s', hrun, ha⟩ := hm.of_state s
  exact ⟨a, s', hrun, h a ha⟩

theorem ite [Decidable c] {Q : α → Prop}
    (hm : c → Yields m Q) (hn : ¬c → Yields n Q) : Yields (if c then m else n) Q := by
  split
  . exact hm ‹_›
  . exact hn ‹_›

end Yields

def Ends {ε α : Type} (m : Except ε α) (Q : α → Prop) (E : ε → Prop) : Prop :=
  match m with
  | .ok a => Q a
  | .error e => E e

namespace Ends

variable {ε α β : Type} {m : Except ε α} {Q : α → Prop} {E : ε → Prop}

theorem mono {R : α → Prop} {F : ε → Prop} (hm : Ends m Q E) (hok : ∀ (a : α), Q a → R a)
    (herror : ∀ (e : ε), E e → F e) : Ends m R F := by
  cases m with
  | ok a => exact hok a hm
  | error e => exact herror e hm

theorem bind {R : β → Prop} (hm : Ends m Q E) (hf : ∀ (a : α), Q a → Ends (f a) R E)
    : Ends (m >>= f) R E := by
  cases m with
  | ok a => exact hf a hm
  | error e => exact hm

theorem ite [Decidable c] (hm : c → Ends m Q E) (hn : ¬c → Ends n Q E)
    : Ends (if c then m else n) Q E := by
  split
  . exact hm ‹_›
  . exact hn ‹_›

end Ends
