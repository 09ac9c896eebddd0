import SpiderMonkey.Lib.OptionBind
import SpiderMonkey.Frontend.Impl.TokenStream
import Mathlib.Data.List.Pairwise

/-!
This module contains the proofs that the table of the line starts holds what was added to it, and that the search
through it finds the last line start that is not after the offset, wherever it begins.
-/

namespace SpiderMonkey.Frontend

open List Option

def IsLastStart (starts : List Nat) (offset index : Nat) : Prop :=
  (∃ start, starts[index]? = some start ∧ start ≤ offset)
    ∧ ∀ later start, starts[later]? = some start → start ≤ offset → later ≤ index

structure AreLineStarts (starts : List Nat) : Prop where
  sorted : starts.Pairwise (· < ·)
  le : ∀ start ∈ starts, start ≤ MAX_PTR

theorem AreLineStarts.lt {starts : List Nat} (h : AreLineStarts starts) {i j a b : Nat} (ha : starts[i]? = some a)
    (hb : starts[j]? = some b) (hlt : i < j) : a < b := by
  obtain ⟨hi, rfl⟩ := List.getElem?_eq_some_iff.mp ha
  obtain ⟨hj, rfl⟩ := List.getElem?_eq_some_iff.mp hb
  exact pairwise_iff_getElem.mp h.sorted i j hi hj hlt

namespace SourceCoords

structure Holds (coords : SourceCoords) (starts : List Nat) : Prop where
  offsets : coords.lineStartOffsets = starts ++ [MAX_PTR]
  lastIndex : coords.lastIndex < starts.length

section Search

variable {coords : SourceCoords} {starts : List Nat} {offset i iMin iMax rounds : Nat}

theorem Holds.get (h : coords.Holds starts) (hi : i < starts.length) : coords.lineStartOffsets[i]? = starts[i]? := by
  rw [h.offsets, List.getElem?_append_left hi]

theorem Holds.get_sentinel (h : coords.Holds starts) : coords.lineStartOffsets[starts.length]? = some MAX_PTR := by
  rw [h.offsets, List.getElem?_concat_length]

theorem Holds.length (h : coords.Holds starts) : coords.lineStartOffsets.length = starts.length + 1 := by
  rw [h.offsets, length_append, length_singleton]

theorem Holds.exists_get (h : coords.Holds starts) (hi : i ≤ starts.length)
    : ∃ next, coords.lineStartOffsets[i]? = some next ∧ (i = starts.length ∧ next = MAX_PTR
        ∨ i < starts.length ∧ starts[i]? = some next) := by
  rcases Nat.eq_or_lt_of_le hi with rfl | hlt
  . exact ⟨MAX_PTR, h.get_sentinel, .inl ⟨rfl, rfl⟩⟩
  . refine ⟨starts[i], ?_, .inr ⟨hlt, List.getElem?_eq_getElem hlt⟩⟩
    rw [h.get hlt, List.getElem?_eq_getElem hlt]

theorem isLastStart_of_next (hstarts : AreLineStarts starts) (hi : i < starts.length)
    (hle : ∀ start, starts[i]? = some start → start ≤ offset)
    (hnext : ∀ start, starts[i + 1]? = some start → offset < start) : IsLastStart starts offset i := by
  refine ⟨⟨starts[i], List.getElem?_eq_getElem hi, hle _ (List.getElem?_eq_getElem hi)⟩, ?_⟩
  intro later start hlater hstart
  by_contra hgt
  have hlt : later < starts.length := (List.getElem?_eq_some_iff.mp hlater).1
  have hnext' := List.getElem?_eq_getElem (show i + 1 < starts.length by omega)
  have := hnext _ hnext'
  rcases Nat.eq_or_lt_of_le (show i + 1 ≤ later by omega) with rfl | hlt'
  . rw [hlater, some_inj] at hnext'
    omega
  . have := hstarts.lt hnext' hlater hlt'
    omega

theorem binarySearch_exact (h : coords.Holds starts) (hstarts : AreLineStarts starts) (hrounds : iMax - iMin < rounds)
    (hle : iMin ≤ iMax) (hlt : iMax < starts.length) (hmin : ∀ start, starts[iMin]? = some start → start ≤ offset)
    (hmax : ∀ later start, starts[later]? = some start → start ≤ offset → later ≤ iMax)
    : ∃ i, coords.binarySearch offset rounds iMin iMax = some i ∧ IsLastStart starts offset i := by
  induction rounds generalizing iMin iMax with
  | zero => omega
  | succ rounds ih =>
    rw [binarySearch]
    split
    next hlt' =>
      have hmid : iMin + (iMax - iMin) / 2 + 1 ≤ iMax := by omega
      have hget := List.getElem?_eq_getElem (show iMin + (iMax - iMin) / 2 + 1 < starts.length by omega)
      dsimp only
      rw [h.get (by omega), hget, some_bind]
      split
      next hstart =>
        apply ih (by omega) hmid hlt _ hmax
        intro start hstart'
        rw [hget, some_inj] at hstart'
        omega
      next hstart =>
        apply ih (by omega) (by omega) (by omega) hmin
        intro later start hlater hle'
        by_contra hgt
        rcases Nat.eq_or_lt_of_le (show iMin + (iMax - iMin) / 2 + 1 ≤ later by omega) with heq | hgt'
        . rw [← heq, hget, some_inj] at hlater
          omega
        . have := hstarts.lt hget hlater hgt'
          omega
    next hge =>
      obtain rfl : iMin = iMax := by omega
      have hget := List.getElem?_eq_getElem hlt
      exact ⟨iMin, rfl, ⟨_, hget, hmin _ hget⟩, hmax⟩

theorem searchFrom_exact (h : coords.Holds starts) (hstarts : AreLineStarts starts) (hlt : iMin < starts.length)
    (hmin : ∀ start, starts[iMin]? = some start → start ≤ offset)
    : ∃ i, coords.searchFrom offset iMin = some (i, { coords with lastIndex := i }) ∧ IsLastStart starts offset i := by
  have hlength := h.length
  have hmax : ∀ later start, starts[later]? = some start → start ≤ offset
      → later ≤ coords.lineStartOffsets.length - 2 := by
    intro later start hlater _
    have := (List.getElem?_eq_some_iff.mp hlater).1
    omega
  have hrounds : coords.lineStartOffsets.length - 2 - iMin < coords.lineStartOffsets.length := by omega
  obtain ⟨i, hsearch, hlast⟩ := binarySearch_exact h hstarts hrounds (by omega) (by omega) hmin hmax
  refine ⟨i, ?_, hlast⟩
  unfold searchFrom
  dsimp only
  rw [hsearch]
  rfl

theorem Holds.next_cases (h : coords.Holds starts) (hstarts : AreLineStarts starts) (hi : i < starts.length)
    (hle : ∀ start, starts[i]? = some start → start ≤ offset) (hoffset : offset < MAX_PTR ∨ i + 1 < starts.length)
    : ∃ next, coords.lineStartOffsets[i + 1]? = some next ∧ (offset < next ∧ IsLastStart starts offset i
        ∨ ¬offset < next ∧ i + 1 < starts.length ∧ ∀ start, starts[i + 1]? = some start → start ≤ offset) := by
  obtain ⟨next, hnext, hcases⟩ := h.exists_get (show i + 1 ≤ starts.length from hi)
  refine ⟨next, hnext, ?_⟩
  by_cases hlt : offset < next
  . left
    refine ⟨hlt, isLastStart_of_next hstarts hi hle ?_⟩
    intro start hstart
    rcases hcases with ⟨heq, -⟩ | ⟨-, hget⟩
    . rw [heq, List.getElem?_eq_none (Nat.le_refl _)] at hstart
      cases hstart
    . rw [hget, some_inj] at hstart
      omega
  . right
    rcases hcases with ⟨heq, rfl⟩ | ⟨hlt', hget⟩
    . omega
    refine ⟨hlt, hlt', ?_⟩
    intro start hstart
    rw [hget, some_inj] at hstart
    omega

theorem indexFromOffset_exact (h : coords.Holds starts) (hstarts : AreLineStarts starts)
    (hfirst : ∀ start, starts[0]? = some start → start ≤ offset)
    (hoffset : offset < MAX_PTR ∨ coords.lastIndex + 4 ≤ starts.length)
    : ∃ i, coords.indexFromOffset offset = some (i, { coords with lastIndex := i })
        ∧ IsLastStart starts offset i := by
  have hlast := h.lastIndex
  have hget := List.getElem?_eq_getElem hlast
  unfold indexFromOffset
  dsimp only
  rw [h.get hlast, hget, some_bind]
  split
  next hle =>
    have hle' : ∀ start, starts[coords.lastIndex]? = some start → start ≤ offset := by
      intro start hstart
      rw [hget, some_inj] at hstart
      omega
    obtain ⟨next, hnext, ⟨hlt, hexact⟩ | ⟨hge, hlast₁, hle₁⟩⟩ := h.next_cases hstarts hlast hle' (by omega)
    . rw [hnext, some_bind, if_pos hlt]
      exact ⟨_, rfl, hexact⟩
    rw [hnext, some_bind, if_neg hge]
    obtain ⟨next, hnext, ⟨hlt, hexact⟩ | ⟨hge, hlast₂, hle₂⟩⟩ := h.next_cases hstarts hlast₁ hle₁ (by omega)
    . rw [hnext, some_bind, if_pos hlt]
      exact ⟨_, rfl, hexact⟩
    rw [hnext, some_bind, if_neg hge]
    obtain ⟨next, hnext, ⟨hlt, hexact⟩ | ⟨hge, hlast₃, hle₃⟩⟩ := h.next_cases hstarts hlast₂ hle₂ (by omega)
    . rw [hnext, some_bind, if_pos hlt]
      exact ⟨_, rfl, hexact⟩
    . rw [hnext, some_bind, if_neg hge]
      exact searchFrom_exact h hstarts hlast₃ hle₃
  next => exact searchFrom_exact h hstarts (by omega) hfirst

theorem indexFromOffset_not_exact (h : coords.Holds starts) (hstarts : AreLineStarts starts)
    (hlast : starts.length < coords.lastIndex + 4)
    : ∀ i c, coords.indexFromOffset MAX_PTR = some (i, c) → ¬IsLastStart starts MAX_PTR i := by
  have hnot {i start : Nat} (hget : coords.lineStartOffsets[i]? = some start) : ¬MAX_PTR < start := by
    rw [h.offsets] at hget
    rcases mem_append.mp (mem_of_getElem? hget) with hmem | hmem
    . have := hstarts.le start hmem
      omega
    . rw [mem_singleton.mp hmem]
      exact Nat.lt_irrefl _
  intro i c hrun hexact
  unfold indexFromOffset at hrun
  dsimp only at hrun
  rw [h.get h.lastIndex, List.getElem?_eq_getElem h.lastIndex, bind_eq_bind, bind_some,
    if_pos (hstarts.le _ (getElem_mem _)), bind_eq_some_iff] at hrun
  obtain ⟨next₁, hget₁, hrun⟩ := hrun
  rw [if_neg (hnot hget₁), bind_eq_some_iff] at hrun
  obtain ⟨next₂, hget₂, hrun⟩ := hrun
  rw [if_neg (hnot hget₂), bind_eq_some_iff] at hrun
  obtain ⟨next₃, hget₃, hrun⟩ := hrun
  rw [if_neg (hnot hget₃)] at hrun
  have hlength := h.length
  have hlt := (List.getElem?_eq_some_iff.mp hget₃).1
  unfold searchFrom at hrun
  dsimp only at hrun
  rw [hlength, binarySearch, if_neg (by omega), bind_eq_bind, bind_some, some_inj, Prod.mk.injEq] at hrun
  obtain ⟨⟨start, hstart, -⟩, -⟩ := hexact
  have := (List.getElem?_eq_some_iff.mp hstart).1
  omega

end Search

section Add

variable {coords other : SourceCoords} {starts others : List Nat}

theorem appendAll_eq {offsets rest : List Nat} {granted : Nat} (h : rest.length ≤ granted)
    : appendAll offsets granted rest = (true, offsets ++ rest) := by
  induction rest generalizing offsets granted with
  | nil => rw [appendAll, append_nil]
  | cons offset rest ih =>
    rw [length_cons] at h
    obtain ⟨granted, rfl⟩ := Nat.exists_eq_add_of_le' (show 1 ≤ granted by omega)
    rw [appendAll, ih (by omega), append_assoc]
    rfl

theorem Holds.add_old (h : coords.Holds starts) (hindex : coords.indexFromLineNumber lineNum ≠ starts.length)
    : coords.add lineNum lineStartOffset appended = (true, coords) := by
  have hlength := h.length
  unfold add
  dsimp only
  rw [if_neg (by omega)]

theorem Holds.add_new (h : coords.Holds starts) (hindex : coords.indexFromLineNumber lineNum = starts.length)
    : coords.add lineNum lineStartOffset true
        = (true, { coords with lineStartOffsets := starts ++ [lineStartOffset] ++ [MAX_PTR] }) := by
  have hlength := h.length
  unfold add
  dsimp only
  rw [if_pos (by omega), if_pos rfl, hindex, h.offsets, append_assoc,
    set_append_right _ _ (Nat.le_refl _), Nat.sub_self, append_assoc]
  rfl

theorem Holds.add_failed (h : coords.Holds starts) (hindex : coords.indexFromLineNumber lineNum = starts.length)
    : coords.add lineNum lineStartOffset false = (false, coords) := by
  have hlength := h.length
  unfold add
  dsimp only
  rw [if_pos (by omega), if_neg Bool.false_ne_true]

theorem Holds.fill_shorter (h : coords.Holds starts) (hother : other.lineStartOffsets = others ++ [MAX_PTR])
    (hle : others.length ≤ starts.length) (granted : Nat) : coords.fill other granted = some (true, coords) := by
  unfold fill
  rw [if_pos]
  rw [h.length, hother, length_append, length_singleton]
  omega

theorem Holds.fill_longer (h : coords.Holds starts) (hother : other.lineStartOffsets = others ++ [MAX_PTR])
    (hearlier : starts <+: others) (hlt : starts.length < others.length) {granted : Nat}
    (hgranted : others.length - starts.length ≤ granted)
    : coords.fill other granted = some (true, { coords with lineStartOffsets := others ++ [MAX_PTR] }) := by
  obtain ⟨rest, rfl⟩ := hearlier
  cases rest with
  | nil =>
    rw [append_nil] at hlt
    exact absurd hlt (Nat.lt_irrefl _)
  | cons start rest =>
    have hsentinel : coords.lineStartOffsets.length - 1 = starts.length := by
      have := h.length
      omega
    have hget : other.lineStartOffsets[starts.length]? = some start := by
      rw [hother, append_assoc, List.getElem?_append_right (Nat.le_refl _), Nat.sub_self]
      rfl
    have hset : coords.lineStartOffsets.set starts.length start = starts ++ [start] := by
      rw [h.offsets, set_append_right _ _ (Nat.le_refl _), Nat.sub_self]
      rfl
    have hdrop : other.lineStartOffsets.drop (starts.length + 1) = rest ++ [MAX_PTR] := by
      rw [hother, append_assoc, drop_append, drop_of_length_le (Nat.le_succ _), Nat.add_sub_cancel_left]
      rfl
    have hrest : (rest ++ [MAX_PTR]).length ≤ granted := by
      simp only [length_append, length_cons, length_nil] at hgranted ⊢
      omega
    unfold fill
    rw [if_neg (by rw [h.length, hother, length_append, length_singleton]; omega)]
    dsimp only
    rw [hsentinel, hget, some_bind, hset, hdrop, appendAll_eq hrest]
    simp only [append_assoc, cons_append, nil_append]

end Add

end SourceCoords

end SpiderMonkey.Frontend
