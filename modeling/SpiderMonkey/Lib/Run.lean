import SpiderMonkey.Lib.OptionBind
import Mathlib.Data.List.Induction

/-!
This module contains the invariant rules for runs of a partial step function.
-/

namespace Run

open List

variable {S A : Type}

theorem foldlM_inv {step : S → A → Option S} (inv : List A → S → Prop)
    (hstep : ∀ (done : List A) (s : S) (a : A) (s' : S), inv done s → step s a = some s' → inv (done ++ [a]) s')
    {calls : List A} {done : List A} {s s' : S} (h : inv done s)
    (hrun : calls.foldlM step s = some s') : inv (done ++ calls) s' := by
  induction calls generalizing done s with
  | nil =>
    cases hrun
    rw [append_nil]
    exact h
  | cons a calls ih =>
    rw [foldlM_cons, bind_eq_some] at hrun
    obtain ⟨t, ht, hrun⟩ := hrun
    rw [append_cons]
    exact ih (hstep done s a t h ht) hrun

section Prefix

variable {step : S → A → Option S} {s₀ s : S} {calls : List A}

theorem foldlM_concat {call : A} (h : calls.foldlM step s₀ = some s)
    : (calls ++ [call]).foldlM step s₀ = step s call := by
  simp only [foldlM_append, h, Option.bind_eq_bind, Option.bind_some, foldlM_cons,
    foldlM_nil, Option.pure_def, Option.bind_fun_some]

theorem exists_foldlM_of_prefix (hrun : calls.foldlM step s₀ = some s) {done : List A}
    (hpre : done <+: calls)
    : ∃ t, done.foldlM step s₀ = some t := by
  obtain ⟨rest, rfl⟩ := hpre
  rw [foldlM_append, bind_eq_some] at hrun
  obtain ⟨t, ht, _⟩ := hrun
  exact ⟨t, ht⟩

variable {inv good : S → Prop} {meets : S → A → Prop}

theorem foldlM_inv_of_meets (hstep : ∀ s call s', inv s → meets s call → step s call = some s' → inv s')
    (h₀ : inv s₀) (hrun : calls.foldlM step s₀ = some s)
    (hmeets : ∀ done call t, done ++ [call] <+: calls → done.foldlM step s₀ = some t → meets t call)
    : inv s := by
  induction calls using List.reverseRecOn generalizing s with
  | nil =>
    cases hrun
    exact h₀
  | append_singleton calls call ih =>
    obtain ⟨t, ht⟩ := exists_foldlM_of_prefix hrun (prefix_append calls [call])
    have hinv : inv t := by
      apply ih ht
      intro done c u hpre hu
      exact hmeets done c u (hpre.trans (prefix_append calls [call])) hu
    rw [foldlM_concat ht] at hrun
    exact hstep t call s hinv (hmeets calls call t prefix_rfl ht) hrun

theorem exists_foldlM_of_meets (hstep : ∀ s call, inv s → meets s call → ∃ s', step s call = some s' ∧ inv s')
    (h₀ : inv s₀) (hmeets : ∀ done call t, done ++ [call] <+: calls → done.foldlM step s₀ = some t → meets t call)
    : ∃ s, calls.foldlM step s₀ = some s ∧ inv s := by
  induction calls using List.reverseRecOn with
  | nil => exact ⟨s₀, rfl, h₀⟩
  | append_singleton calls call ih =>
    have hearlier : ∃ t, calls.foldlM step s₀ = some t ∧ inv t := by
      apply ih
      intro done c u hpre hu
      exact hmeets done c u (hpre.trans (prefix_append calls [call])) hu
    obtain ⟨t, ht, hinv⟩ := hearlier
    rw [foldlM_concat ht]
    exact hstep t call hinv (hmeets calls call t prefix_rfl ht)

theorem exists_foldlM (inv : List A → S → Prop)
    (hstep : ∀ done call s, done ++ [call] <+: calls → inv done s → ∃ s', step s call = some s' ∧ inv (done ++ [call]) s')
    (h₀ : inv [] s₀) : ∃ s, calls.foldlM step s₀ = some s ∧ inv calls s := by
  induction calls using List.reverseRecOn with
  | nil => exact ⟨s₀, rfl, h₀⟩
  | append_singleton calls call ih =>
    have hearlier : ∃ t, calls.foldlM step s₀ = some t ∧ inv calls t := by
      apply ih
      intro done c u hpre
      exact hstep done c u (hpre.trans (prefix_append calls [call]))
    obtain ⟨t, ht, hinv⟩ := hearlier
    rw [foldlM_concat ht]
    exact hstep calls call t prefix_rfl hinv

theorem foldlM_good_iff (hgood : ∀ s, inv s → good s)
    (hstep : ∀ s call s', inv s → meets s call → step s call = some s' → inv s')
    (hbad : ∀ s call s', inv s → ¬ meets s call → step s call = some s' → ¬ good s')
    (h₀ : inv s₀) (hrun : calls.foldlM step s₀ = some s)
    : (∀ done t, done <+: calls → done.foldlM step s₀ = some t → good t)
        ↔ (∀ done call t, done ++ [call] <+: calls → done.foldlM step s₀ = some t → meets t call) := by
  constructor
  . intro hall
    induction calls using List.reverseRecOn generalizing s with
    | nil =>
      intro done call t hpre
      have := hpre.length_le
      simp only [length_append, length_singleton, length_nil] at this
      omega
    | append_singleton calls last ih =>
      obtain ⟨t, ht⟩ := exists_foldlM_of_prefix hrun (prefix_append calls [last])
      have hearlier := ih ht (fun done u hpre hu =>
        hall done u (hpre.trans (prefix_append calls [last])) hu)
      intro done call u hpre hu
      rcases prefix_concat_iff.mp hpre with heq | hpre
      . obtain ⟨rfl, hlast⟩ := append_inj' heq rfl
        cases hlast
        rw [ht] at hu
        cases hu
        by_contra hnot
        have hinv := foldlM_inv_of_meets hstep h₀ ht hearlier
        apply hbad t last s hinv hnot
        . rw [← foldlM_concat ht, hrun]
        . exact hall _ s prefix_rfl hrun
      . exact hearlier done call u hpre hu
  . intro hmeets done t hpre ht
    apply hgood
    apply foldlM_inv_of_meets hstep h₀ ht
    intro d call u hd hu
    exact hmeets d call u (hd.trans hpre) hu

end Prefix

section Through

variable {step : S → A → Option S} {s₀ : S} {calls : List A} {inv good : S → Prop}
  {allowed meets : S → A → Prop}

theorem through_good_iff (hgood : ∀ s, inv s → good s)
    (hstep : ∀ s call, inv s → allowed s call → meets s call → ∃ s', step s call = some s' ∧ inv s')
    (hbad : ∀ s call s', inv s → allowed s call → ¬ meets s call → step s call = some s' → ¬ good s') (h₀ : inv s₀)
    (hallowed : ∀ done call t, done ++ [call] <+: calls → done.foldlM step s₀ = some t → allowed t call)
    : (∀ done, done <+: calls → ∃ t, done.foldlM step s₀ = some t ∧ good t)
        ↔ (∀ done call t, done ++ [call] <+: calls → done.foldlM step s₀ = some t → meets t call) := by
  induction calls generalizing s₀ with
  | nil =>
    constructor
    . intro _ done call t hprefix
      have := hprefix.length_le
      simp at this
    intro _ done hprefix
    rw [prefix_nil.mp hprefix]
    exact ⟨s₀, rfl, hgood s₀ h₀⟩
  | cons call calls ih =>
    have hfirst : [] ++ [call] <+: call :: calls := cons_prefix_cons.mpr ⟨rfl, nil_prefix⟩
    have hcall := hallowed [] call s₀ hfirst rfl
    by_cases hmeets : meets s₀ call
    . obtain ⟨s₁, heq, hinv⟩ := hstep s₀ call h₀ hcall hmeets
      have hrun : ∀ done, (call :: done).foldlM step s₀ = done.foldlM step s₁ := by
        intro done
        rw [foldlM_cons, heq]
        rfl
      have htail := ih hinv fun done c t hprefix ht =>
        hallowed (call :: done) c t ((prefix_cons_inj call).mpr hprefix) (by rw [hrun, ht])
      constructor
      . intro hall done c t hprefix ht
        cases done with
        | nil =>
          obtain ⟨rfl, -⟩ := cons_prefix_cons.mp hprefix
          cases ht
          exact hmeets
        | cons d done =>
          obtain ⟨rfl, hrest⟩ := cons_prefix_cons.mp hprefix
          rw [hrun] at ht
          refine htail.mp (fun done' hprefix' => ?_) done c t hrest ht
          have hgood' := hall (d :: done') ((prefix_cons_inj d).mpr hprefix')
          rw [hrun] at hgood'
          exact hgood'
      . intro hall done hprefix
        cases done with
        | nil => exact ⟨s₀, rfl, hgood s₀ h₀⟩
        | cons d done =>
          obtain ⟨rfl, hrest⟩ := cons_prefix_cons.mp hprefix
          rw [hrun]
          refine htail.mpr (fun done' c t hprefix' ht => ?_) done hrest
          exact hall (d :: done') c t ((prefix_cons_inj d).mpr hprefix') (by rw [hrun, ht])
    . constructor
      . intro hall
        obtain ⟨t, ht, hgood'⟩ := hall [call] hfirst
        have ht' : step s₀ call = some t := by
          rw [← ht]
          simp
        exact absurd hgood' (hbad s₀ call t h₀ hcall hmeets ht')
      . intro hall
        exact absurd (hall [] call s₀ hfirst rfl) hmeets

def guarded (step : S → A → Option S) (allowed : S → A → Prop) [∀ s call, Decidable (allowed s call)] (s : S)
    (call : A) : Option S :=
  if allowed s call then step s call else none

theorem allowed_of_guarded [∀ s call, Decidable (allowed s call)] (h : calls.foldlM (guarded step allowed) s₀ = some s)
    : calls.foldlM step s₀ = some s
        ∧ ∀ done call t, done ++ [call] <+: calls → done.foldlM step s₀ = some t → allowed t call := by
  induction calls generalizing s₀ with
  | nil =>
    refine ⟨h, fun done call t hprefix => ?_⟩
    have := hprefix.length_le
    simp at this
  | cons call calls ih =>
    rw [foldlM_cons, bind_eq_some] at h
    obtain ⟨s₁, hfirst, hrest⟩ := h
    unfold guarded at hfirst
    split at hfirst
    next hallowed =>
      obtain ⟨hrun, hall⟩ := ih hrest
      have hcons : ∀ done, (call :: done).foldlM step s₀ = done.foldlM step s₁ := by
        intro done
        rw [foldlM_cons, hfirst]
        rfl
      refine ⟨(hcons calls).trans hrun, fun done c t hprefix ht => ?_⟩
      cases done with
      | nil =>
        obtain ⟨rfl, -⟩ := cons_prefix_cons.mp hprefix
        cases ht
        exact hallowed
      | cons d done =>
        obtain ⟨rfl, htail⟩ := cons_prefix_cons.mp hprefix
        rw [hcons] at ht
        exact hall done c t htail ht
    next => cases hfirst

end Through

theorem mapM_eq_map {B : Type} {step : A → StateM S B} {f : A → B} {ok : A → Prop} {inv : S → Prop}
    (hstep : ∀ s a, ok a → inv s → (step a s).1 = f a ∧ inv (step a s).2)
    {calls : List A} (hok : ∀ a ∈ calls, ok a) (h : inv s)
    : ((calls.mapM step).run s).1 = calls.map f ∧ inv ((calls.mapM step).run s).2 := by
  induction calls generalizing s with
  | nil => exact ⟨rfl, h⟩
  | cons a calls ih =>
    obtain ⟨hvalue, hinv⟩ := hstep s a (hok a mem_cons_self) h
    obtain ⟨hvalues, hinv⟩ := ih (fun b hb => hok b (mem_cons_of_mem a hb)) hinv
    rw [mapM_cons]
    constructor
    . rw [map_cons, ← hvalue, ← hvalues]
      rfl
    . exact hinv

end Run
