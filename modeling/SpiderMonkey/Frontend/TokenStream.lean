import SpiderMonkey.Frontend.Lemmas.TokenStream
import SpiderMonkey.Lib.Run

/-!
This module contains the lookups of lines and columns while a text is tokenized, and the proof that the caches
never show: every lookup yields the last line start that is known and the number of code points after it.
-/

namespace SpiderMonkey.Frontend

open List

structure LineStarts {e : Encoding} (s : SourceUnits e) where
  starts : List Nat
  first : starts[0]? = some s.startOffset
  sorted : starts.Pairwise (· < ·)
  boundary : ∀ start ∈ starts, s.IsBoundary start

namespace TokenStreamAnyChars

structure Session where
  chars : TokenStreamAnyChars
  known : Nat
  answered : Option (Call × Answer)

namespace Session

variable {e : Encoding} {s : SourceUnits e} {lines : LineStarts s} {lineno : UInt32}

def new (lineno : UInt32) (scriptSourceOffset : Nat) : Session :=
  { chars := .new lineno scriptSourceOffset, known := 1, answered := none }

def knownAfter (t : Session) : Call → Answer → Nat
  | .add lineNum _ _, .added true => max t.known (t.chars.srcCoords.indexFromLineNumber lineNum + 1)
  | .fill other _, .added true => max t.known (other.lineStartOffsets.length - 1)
  | _, _ => t.known

def step (s : SourceUnits e) (t : Session) (call : Call) : Option Session := do
  let (answer, chars) ← t.chars.answer s call
  some { chars := chars, known := t.knownAfter call answer, answered := some (call, answer) }

-- The calls that tokenizing makes. A line start is added again or after all earlier ones, a table that is filled
-- in is one of the same text and finds memory, and what is looked up has been tokenized.
def InOrder (lines : LineStarts s) (t : Session) : Call → Prop
  | .add lineNum lineStartOffset _ =>
    t.chars.srcCoords.indexFromLineNumber lineNum ≤ t.known
      ∧ lines.starts[t.chars.srcCoords.indexFromLineNumber lineNum]? = some lineStartOffset
  | .fill other granted =>
    (∃ m, m ≤ lines.starts.length ∧ other.lineStartOffsets = lines.starts.take m ++ [MAX_PTR])
      ∧ other.lineStartOffsets.length ≤ granted
  | .lineToken offset => s.IsBoundary offset
  | .computePartialColumn offset _ => s.IsBoundary offset

def ExactAnswer (lines : LineStarts s) (known : Nat) : Call → Answer → Prop
  | .lineToken offset, .lineToken index => IsLastStart (lines.starts.take known) offset index
  | .computePartialColumn offset _, .partialColumn index column =>
    IsLastStart (lines.starts.take known) offset index
      ∧ ∃ start, lines.starts[index]? = some start ∧ s.CodePoints start offset column
  | .add .., .added _ => True
  | .fill .., .added _ => True
  | _, _ => False

def Exact (lines : LineStarts s) (t : Session) : Prop :=
  ∀ call answer, t.answered = some (call, answer) → ExactAnswer lines t.known call answer

def Answerable (t : Session) : Call → Prop
  | .lineToken offset => offset < MAX_PTR ∨ t.chars.srcCoords.lastIndex + 4 < t.chars.srcCoords.lineStartOffsets.length
  | .computePartialColumn offset _ =>
    (offset < MAX_PTR ∨ t.chars.srcCoords.lastIndex + 4 < t.chars.srcCoords.lineStartOffsets.length)
      ∧ (offset = MAX_PTR → Uncomputed t.chars
        → t.chars.srcCoords.lineNumberFromIndex (t.chars.srcCoords.lineStartOffsets.length - 2) = UINT32_MAX
        → t.chars.srcCoords.lineStart (t.chars.srcCoords.lineStartOffsets.length - 2) = some MAX_PTR)
  | _ => True

def lineNumber (lineno : UInt32) (index : Nat) : UInt32 := UInt32.ofNat index + lineno

structure Valid (lines : LineStarts s) (lineno : UInt32) (t : Session) : Prop where
  known : 1 ≤ t.known ∧ t.known ≤ lines.starts.length
  table : t.chars.srcCoords.Holds (lines.starts.take t.known)
  initialLineNum : t.chars.srcCoords.initialLineNum = lineno
  columns : ColumnsHold s lines.starts (lineNumber lineno) t.chars

section Lines

theorem areLineStarts (lines : LineStarts s) (hsize : s.startOffset + s.base.length < 2 ^ 32)
    : AreLineStarts lines.starts where
  sorted := lines.sorted
  le := by
    intro start hstart
    have := (lines.boundary start hstart).le_length
    unfold MAX_PTR
    omega

theorem areLineStarts_take {starts : List Nat} (h : AreLineStarts starts) (k : Nat)
    : AreLineStarts (starts.take k) where
  sorted := h.sorted.sublist (take_sublist k starts)
  le := fun start hstart => h.le start (mem_of_mem_take hstart)

theorem AreLineStarts.index_le {starts : List Nat} (h : AreLineStarts starts) {i start : Nat}
    (hi : starts[i]? = some start) : i ≤ start := by
  induction i generalizing start with
  | zero => exact Nat.zero_le _
  | succ i ih =>
    have hlt := (List.getElem?_eq_some_iff.mp hi).1
    have hget := List.getElem?_eq_getElem (show i < starts.length by omega)
    have := h.lt hget hi (Nat.lt_succ_self i)
    have := ih hget
    omega

theorem lineNumber_inj {starts : List Nat} (h : AreLineStarts starts) (lineno : UInt32) (i j a b : Nat)
    (hi : starts[i]? = some a) (hj : starts[j]? = some b) (heq : lineNumber lineno i = lineNumber lineno j)
    : i = j := by
  have hia := AreLineStarts.index_le h hi
  have hjb := AreLineStarts.index_le h hj
  have ha := h.le a (mem_of_getElem? hi)
  have hb := h.le b (mem_of_getElem? hj)
  unfold MAX_PTR at ha hb
  unfold lineNumber at heq
  have heq' : UInt32.ofNat i = UInt32.ofNat j := by
    rw [← UInt32.add_sub_cancel (UInt32.ofNat i) lineno, heq, UInt32.add_sub_cancel]
  rw [← UInt32.toNat_ofNat_of_lt' (show i < 2 ^ 32 by omega), heq',
    UInt32.toNat_ofNat_of_lt' (show j < 2 ^ 32 by omega)]

theorem first_le (lines : LineStarts s) {offset k start : Nat} (hoffset : s.IsBoundary offset)
    (hstart : (lines.starts.take k)[0]? = some start) : start ≤ offset := by
  rw [List.getElem?_take] at hstart
  split at hstart
  next =>
    rw [lines.first, Option.some_inj] at hstart
    rw [← hstart]
    exact hoffset.start_le
  next => cases hstart

theorem IsLastStart.get {starts : List Nat} {k offset index : Nat} (h : IsLastStart (starts.take k) offset index)
    : ∃ start, starts[index]? = some start ∧ start ≤ offset ∧ index < k := by
  obtain ⟨⟨start, hstart, hle⟩, -⟩ := h
  rw [List.getElem?_take] at hstart
  split at hstart
  next hlt => exact ⟨start, hstart, hle, hlt⟩
  next => cases hstart

theorem IsLastStart.eq_last {starts : List Nat} (h : AreLineStarts starts) {index : Nat}
    (hlast : IsLastStart starts MAX_PTR index) : index + 1 = starts.length := by
  obtain ⟨⟨start, hstart, -⟩, hall⟩ := hlast
  have hlt := (List.getElem?_eq_some_iff.mp hstart).1
  have hget := List.getElem?_eq_getElem (show starts.length - 1 < starts.length by omega)
  have := hall _ _ hget (h.le _ (getElem_mem _))
  omega

end Lines

section Step

variable {t : Session}

theorem Valid.new (lines : LineStarts s) (lineno : UInt32) : Valid lines lineno (.new lineno s.startOffset) where
  known := by
    refine ⟨Nat.le_refl 1, ?_⟩
    exact (List.getElem?_eq_some_iff.mp lines.first).1
  table := by
    have htake : lines.starts.take 1 = [s.startOffset] := by
      have := lines.first
      cases hstarts : lines.starts with
      | nil =>
        rw [hstarts] at this
        cases this
      | cons start rest =>
        rw [hstarts, List.getElem?_cons_zero, Option.some_inj] at this
        rw [this]
        rfl
    refine ⟨?_, ?_⟩
    . show [s.startOffset, MAX_PTR] = _
      rw [show (Session.new lineno s.startOffset).known = 1 from rfl, htake]
      rfl
    . rw [show (Session.new lineno s.startOffset).known = 1 from rfl, htake]
      exact Nat.one_pos
  initialLineNum := rfl
  columns := .new lineno s.startOffset

theorem step_of_answer {call : Call} (h : t.chars.answer s call = some (a, c))
    : step s t call = some ⟨c, t.knownAfter call a, some (call, a)⟩ := by
  unfold step
  rw [h]
  rfl

theorem Valid.length (h : Valid lines lineno t) : (lines.starts.take t.known).length = t.known := by
  rw [length_take]
  exact Nat.min_eq_left h.known.2

theorem Valid.withTable (h : Valid lines lineno t)
    {answered : Option (Call × Answer)} (hlo : t.known ≤ k) (hhi : k ≤ lines.starts.length)
    (hoffsets : coords.lineStartOffsets = lines.starts.take k ++ [MAX_PTR])
    (hinit : coords.initialLineNum = t.chars.srcCoords.initialLineNum) (hlast : coords.lastIndex < k)
    : Valid lines lineno ⟨{ t.chars with srcCoords := coords }, k, answered⟩ where
  known := ⟨h.known.1.trans hlo, hhi⟩
  table := by
    refine ⟨hoffsets, ?_⟩
    show coords.lastIndex < (lines.starts.take k).length
    rw [length_take, Nat.min_eq_left hhi]
    exact hlast
  initialLineNum := hinit.trans h.initialLineNum
  columns := h.columns.withCoords coords

theorem Valid.lastIndex_lt (h : Valid lines lineno t) : t.chars.srcCoords.lastIndex < t.known := by
  rw [← h.length]
  exact h.table.lastIndex

theorem step_add (h : Valid lines lineno t) (hinOrder : InOrder lines t (.add lineNum lineStartOffset appended))
    : ∃ t', step s t (.add lineNum lineStartOffset appended) = some t' ∧ Valid lines lineno t' ∧ t'.Exact lines := by
  obtain ⟨hle, hget⟩ := hinOrder
  have hexact (t' : Session) (ok : Bool) (ht' : t'.answered = some (.add lineNum lineStartOffset appended, .added ok))
      : t'.Exact lines := by
    intro call answer heq
    rw [ht'] at heq
    cases heq
    exact trivial
  unfold step answer
  dsimp only
  by_cases hindex : t.chars.srcCoords.indexFromLineNumber lineNum = (lines.starts.take t.known).length
  . cases appended with
    | true =>
      have hlt := (List.getElem?_eq_some_iff.mp hget).1
      rw [hindex, h.length] at hget hlt
      have hmax : max t.known (t.chars.srcCoords.indexFromLineNumber lineNum + 1) = t.known + 1 := by
        rw [hindex, h.length]
        omega
      have htake : lines.starts.take t.known ++ [lineStartOffset] = lines.starts.take (t.known + 1) := by
        rw [take_add_one, hget]
        rfl
      rw [h.table.add_new hindex, htake]
      refine ⟨_, rfl, ?_, hexact _ true rfl⟩
      show Valid lines lineno ⟨_, max t.known _, _⟩
      rw [hmax]
      have := h.lastIndex_lt
      exact h.withTable (Nat.le_succ _) hlt rfl rfl (by dsimp only; omega)
    | false =>
      rw [h.table.add_failed hindex]
      exact ⟨_, rfl, h.withTable (Nat.le_refl _) h.known.2 h.table.offsets rfl h.lastIndex_lt, hexact _ false rfl⟩
  . rw [h.table.add_old hindex]
    rw [h.length] at hindex
    have hmax : max t.known (t.chars.srcCoords.indexFromLineNumber lineNum + 1) = t.known := by omega
    refine ⟨_, rfl, ?_, hexact _ true rfl⟩
    show Valid lines lineno ⟨_, max t.known _, _⟩
    rw [hmax]
    exact h.withTable (Nat.le_refl _) h.known.2 h.table.offsets rfl h.lastIndex_lt

theorem step_fill (h : Valid lines lineno t) {other : SourceCoords} {granted : Nat}
    (hinOrder : InOrder lines t (.fill other granted))
    : ∃ t', step s t (.fill other granted) = some t' ∧ Valid lines lineno t' ∧ t'.Exact lines := by
  obtain ⟨⟨m, hm, hother⟩, hgranted⟩ := hinOrder
  have hlength : (lines.starts.take m).length = m := by
    rw [length_take]
    exact Nat.min_eq_left hm
  have hotherLength : other.lineStartOffsets.length = m + 1 := by
    rw [hother, length_append, length_singleton, hlength]
  have hexact (t' : Session) (ht' : t'.answered = some (.fill other granted, .added true)) : t'.Exact lines := by
    intro call answer heq
    rw [ht'] at heq
    cases heq
    exact trivial
  unfold step answer
  dsimp only
  by_cases hle : m ≤ t.known
  . rw [h.table.fill_shorter hother (by rw [hlength, h.length]; exact hle)]
    refine ⟨_, rfl, ?_, hexact _ rfl⟩
    show Valid lines lineno ⟨_, max t.known _, _⟩
    rw [hotherLength, Nat.add_sub_cancel, Nat.max_eq_left hle]
    exact h.withTable (Nat.le_refl _) h.known.2 h.table.offsets rfl h.lastIndex_lt
  have hearlier : lines.starts.take t.known <+: lines.starts.take m :=
    take_prefix_take_left (by omega)
  rw [h.table.fill_longer hother hearlier (by rw [hlength, h.length]; omega) (by rw [hlength, h.length]; omega)]
  refine ⟨_, rfl, ?_, hexact _ rfl⟩
  show Valid lines lineno ⟨_, max t.known _, _⟩
  rw [hotherLength, Nat.add_sub_cancel, Nat.max_eq_right (by omega)]
  have := h.lastIndex_lt
  exact h.withTable (by omega) hm rfl rfl (by dsimp only; omega)

theorem indexFromOffset_valid (h : Valid lines lineno t) (hstarts : AreLineStarts lines.starts) {offset : Nat}
    (hoffset : s.IsBoundary offset)
    (hsentinel : offset < MAX_PTR ∨ t.chars.srcCoords.lastIndex + 4 < t.chars.srcCoords.lineStartOffsets.length)
    : ∃ i, t.chars.srcCoords.indexFromOffset offset = some (i, { t.chars.srcCoords with lastIndex := i })
        ∧ IsLastStart (lines.starts.take t.known) offset i := by
  have hlength := h.table.length
  exact SourceCoords.indexFromOffset_exact h.table (areLineStarts_take hstarts _)
    (fun start hstart => first_le lines hoffset hstart) (by omega)

theorem step_lineToken (h : Valid lines lineno t) (hsize : s.startOffset + s.base.length < 2 ^ 32) {offset : Nat}
    (hoffset : s.IsBoundary offset) (hanswerable : Answerable t (.lineToken offset))
    : ∃ t', step s t (.lineToken offset) = some t' ∧ Valid lines lineno t' ∧ t'.Exact lines := by
  obtain ⟨i, hindex, hlast⟩ := indexFromOffset_valid h (areLineStarts lines hsize) hoffset hanswerable
  obtain ⟨start, hget, hle, hlt⟩ := IsLastStart.get hlast
  have hanswer : t.chars.answer s (.lineToken offset)
      = some (.lineToken i, { t.chars with srcCoords := { t.chars.srcCoords with lastIndex := i } }) := by
    unfold answer
    dsimp only
    rw [hindex]
    rfl
  refine ⟨_, step_of_answer hanswer, h.withTable (Nat.le_refl _) h.known.2 h.table.offsets rfl hlt, ?_⟩
  intro call answer heq
  cases heq
  exact hlast

theorem step_computePartialColumn (h : Valid lines lineno t) (hsize : s.startOffset + s.base.length < 2 ^ 32)
    {offset : Nat} {memory : Memory} (hoffset : s.IsBoundary offset)
    (hanswerable : Answerable t (.computePartialColumn offset memory))
    : ∃ t', step s t (.computePartialColumn offset memory) = some t' ∧ Valid lines lineno t' ∧ t'.Exact lines := by
  obtain ⟨hsentinel, hcomputed⟩ := hanswerable
  have hstarts := areLineStarts lines hsize
  obtain ⟨i, hindex, hlast⟩ := indexFromOffset_valid h hstarts hoffset hsentinel
  obtain ⟨start, hget, hle, hlt⟩ := IsLastStart.get hlast
  have hboundary := lines.boundary start (mem_of_getElem? hget)
  obtain ⟨n, hcount⟩ := hboundary.codePoints hoffset hle
  have hknown : i < (lines.starts.take t.known).length := by
    rw [h.length]
    exact hlt
  have hlineStart : t.chars.srcCoords.lineStart i = some start := by
    unfold SourceCoords.lineStart
    rw [h.table.get hknown, List.getElem?_take, if_pos hlt, hget]
  have hnumber : t.chars.srcCoords.lineNumberFromIndex i = lineNumber lineno i := by
    unfold SourceCoords.lineNumberFromIndex lineNumber
    rw [h.initialLineNum]
  have hmax : offset ≤ MAX_PTR := by
    have := hoffset.le_length
    unfold MAX_PTR
    omega
  have hfresh : Uncomputed t.chars → lineNumber lineno i = UINT32_MAX → start < MAX_PTR → offset < MAX_PTR := by
    intro huncomputed hline hstart
    by_contra hge
    obtain rfl : offset = MAX_PTR := by omega
    have heq := IsLastStart.eq_last (areLineStarts_take hstarts _) hlast
    have hlength := h.table.length
    rw [show t.chars.srcCoords.lineStartOffsets.length - 2 = i by omega, hnumber, hlineStart] at hcomputed
    have := Option.some_inj.mp (hcomputed rfl huncomputed hline)
    omega
  obtain ⟨c', hrun, hcolumns, hcoords⟩ := computePartialColumn_exact memory
    (h.columns.withCoords { t.chars.srcCoords with lastIndex := i }) (lineNumber_inj hstarts lineno) hget hnumber
    hlineStart hboundary.start_le hcount hfresh
  have hanswer : t.chars.answer s (.computePartialColumn offset memory) = some (.partialColumn i n, c') := by
    unfold answer
    dsimp only
    rw [hindex, some_bind]
    dsimp only
    rw [hrun]
    rfl
  have htable : c'.srcCoords = { t.chars.srcCoords with lastIndex := i } := hcoords
  have hknown' : c'.srcCoords.Holds (lines.starts.take t.known) := by
    rw [htable]
    exact ⟨h.table.offsets, hknown⟩
  have hinit : c'.srcCoords.initialLineNum = lineno := by
    rw [htable]
    exact h.initialLineNum
  refine ⟨_, step_of_answer hanswer, ⟨h.known, hknown', hinit, hcolumns⟩, ?_⟩
  intro call answer heq
  cases heq
  exact ⟨hlast, start, hget, hcount⟩

theorem step_exact (h : Valid lines lineno t) (hsize : s.startOffset + s.base.length < 2 ^ 32) {call : Call}
    (hinOrder : InOrder lines t call) (hanswerable : Answerable t call)
    : ∃ t', step s t call = some t' ∧ Valid lines lineno t' ∧ t'.Exact lines := by
  cases call with
  | add lineNum lineStartOffset appended => exact step_add h hinOrder
  | fill other granted => exact step_fill h hinOrder
  | lineToken offset => exact step_lineToken h hsize hinOrder hanswerable
  | computePartialColumn offset memory => exact step_computePartialColumn h hsize hinOrder hanswerable

end Step

def AnsweredExactly (lines : LineStarts s) (lineno : UInt32) (calls : List Call) : Prop :=
  ∀ done, done <+: calls →
    ∃ t, done.foldlM (step s) (new lineno s.startOffset) = some t ∧ t.Exact lines

def RunInOrder (lines : LineStarts s) (lineno : UInt32) (calls : List Call) : Prop :=
  ∀ done call t, done ++ [call] <+: calls → done.foldlM (step s) (new lineno s.startOffset) = some t →
    t.InOrder lines call

end Session

theorem lookups_transparent {e : Encoding} {s : SourceUnits e} (lines : LineStarts s) (lineno : UInt32)
    {calls : List Call} (hsize : s.startOffset + s.base.length < 2 ^ 32)
    (hinOrder : Session.RunInOrder lines lineno calls) (hanswerable : ∀ done call t, done ++ [call] <+: calls →
      done.foldlM (Session.step s) (.new lineno s.startOffset) = some t → t.Answerable call)
    : Session.AnsweredExactly lines lineno calls := by
  have hstep : ∀ t call, Session.Valid lines lineno t ∧ t.Exact lines → t.InOrder lines call ∧ t.Answerable call →
      ∃ t', Session.step s t call = some t' ∧ Session.Valid lines lineno t' ∧ t'.Exact lines :=
    fun t call h hcall => Session.step_exact h.1 hsize hcall.1 hcall.2
  have hnew : Session.Exact lines (.new lineno s.startOffset) := by
    intro call answer h
    cases h
  intro done hdone
  obtain ⟨t, ht, -, hexact⟩ := Run.exists_foldlM_of_meets hstep ⟨Session.Valid.new lines lineno, hnew⟩
    fun earlier call t hearlier ht =>
      ⟨hinOrder earlier call t (hearlier.trans hdone) ht, hanswerable earlier call t (hearlier.trans hdone) ht⟩
  exact ⟨t, ht, hexact⟩

def twoLines : SourceUnits .UTF8 := ⟨[0x61, 0xC3, 0xA9, 0x0A, 0x62], 0⟩

theorem twoLines_next (c a b : Nat) (hc : Utf8.IsScalarValue c)
    (h : Utf8.encode c <+: [0x61, 0xC3, 0xA9, 0x0A, 0x62].drop a) (hb : b = a + (Utf8.encode c).length)
    : twoLines.NextCodePoint a b :=
  ⟨a, b, ⟨c, hc, h, hb⟩, (Nat.zero_add a).symm, (Nat.zero_add b).symm⟩

theorem twoLines_line : twoLines.CodePoints 0 4 3 :=
  .cons (twoLines_next 0x61 0 1 ⟨by decide, by decide⟩ (by decide) rfl)
    (.cons (twoLines_next 0xE9 1 3 ⟨by decide, by decide⟩ (by decide) rfl)
      (.cons (twoLines_next 0x0A 3 4 ⟨by decide, by decide⟩ (by decide) rfl) (.nil 4)))

def twoLinesStarts : LineStarts twoLines where
  starts := [0, 4]
  first := rfl
  sorted := by decide
  boundary := by
    intro start hstart
    rcases mem_cons.mp hstart with rfl | hstart
    . exact ⟨0, .nil 0⟩
    . obtain rfl := mem_singleton.mp hstart
      exact ⟨3, twoLines_line⟩

-- The second line is added twice, and then looked up before the first one.
def twoLinesCalls : List Call :=
  [.add 2 4 true, .add 2 4 true, .computePartialColumn 4 ⟨true, false⟩, .computePartialColumn 0 ⟨true, false⟩]

theorem lookups_transparent_twoLines : Session.AnsweredExactly twoLinesStarts 1 twoLinesCalls := by
  have hcalls (done : List Call) (call : Call) (t : Session) (h : done ++ [call] <+: twoLinesCalls)
      (ht : done.foldlM (Session.step twoLines) (.new 1 0) = some t)
      : t.InOrder twoLinesStarts call ∧ t.Answerable call := by
    rcases Lists.concat_prefix_cons h with ⟨rfl, rfl⟩ | ⟨_, rfl, h₁⟩
    . cases ht
      exact ⟨⟨by decide, rfl⟩, trivial⟩
    rcases Lists.concat_prefix_cons h₁ with ⟨rfl, rfl⟩ | ⟨_, rfl, h₂⟩
    . cases ht
      exact ⟨⟨by decide, rfl⟩, trivial⟩
    rcases Lists.concat_prefix_cons h₂ with ⟨rfl, rfl⟩ | ⟨_, rfl, h₃⟩
    . exact ⟨⟨3, twoLines_line⟩, .inl (by decide), fun hmax => absurd hmax (by decide)⟩
    rcases Lists.concat_prefix_cons h₃ with ⟨rfl, rfl⟩ | ⟨_, rfl, h₄⟩
    . exact ⟨⟨0, .nil 0⟩, .inl (by decide), fun hmax => absurd hmax (by decide)⟩
    exact absurd h₄.length_le (by simp)
  exact lookups_transparent twoLinesStarts 1 (by decide) (fun done call t h ht => (hcalls done call t h ht).1)
    fun done call t h ht => (hcalls done call t h ht).2

theorem Session.not_exact_at_max (lines : LineStarts s) (lineno : UInt32)
    (hsize : s.startOffset + s.base.length < 2 ^ 32)
    (ht : [.lineToken MAX_PTR].foldlM (Session.step s) (.new lineno s.startOffset) = some t) : ¬t.Exact lines := by
  intro hexact
  have hvalid := Session.Valid.new lines lineno
  rw [foldlM_cons, bind_eq_some] at ht
  obtain ⟨t', hstep, ht⟩ := ht
  cases ht
  unfold Session.step at hstep
  rw [bind_eq_some] at hstep
  obtain ⟨⟨a, c⟩, hanswer, hstep⟩ := hstep
  unfold answer at hanswer
  dsimp only at hanswer
  rw [bind_eq_some] at hanswer
  obtain ⟨⟨i, coords⟩, hindex, hanswer⟩ := hanswer
  cases hanswer
  cases hstep
  have hlength : (lines.starts.take 1).length < 4 := by
    rw [length_take]
    omega
  exact SourceCoords.indexFromOffset_not_exact hvalid.table
    (Session.areLineStarts_take (Session.areLineStarts lines hsize) 1) hlength i coords hindex (hexact _ _ rfl)

def spaces (n : Nat) : SourceUnits .UTF8 := ⟨List.replicate n 0x20, 0⟩

theorem spaces_size (n : Nat) : (spaces n).startOffset + (spaces n).base.length = n := by
  unfold spaces
  rw [Nat.zero_add]
  exact length_replicate

theorem spaces_codePoints (hk : k ≤ n) : (spaces n).CodePoints 0 k k := by
  induction k with
  | zero => exact .nil 0
  | succ k ih =>
    refine (ih (by omega)).trans (.single ⟨k, k + 1, ⟨0x20, ⟨by decide, by decide⟩, ?_, rfl⟩, ?_, ?_⟩)
    . unfold spaces
      rw [drop_replicate, ← Nat.sub_add_cancel (show 1 ≤ n - k by omega), replicate_succ]
      exact prefix_append [0x20] _
    . exact (Nat.zero_add k).symm
    . exact (Nat.zero_add (k + 1)).symm

def spacesStarts (n : Nat) : LineStarts (spaces n) where
  starts := [0]
  first := rfl
  sorted := pairwise_singleton _ _
  boundary := by
    intro start hstart
    obtain rfl := mem_singleton.mp hstart
    exact ⟨0, .nil 0⟩

theorem end_of_longest_text_not_found
    : ¬(∀ (e : Encoding) (s : SourceUnits e) (lines : LineStarts s) (lineno : UInt32) (calls : List Call),
        s.startOffset + s.base.length < 2 ^ 32 → Session.RunInOrder lines lineno calls →
        Session.AnsweredExactly lines lineno calls) := by
  intro h
  have hsize : (spaces MAX_PTR).startOffset + (spaces MAX_PTR).base.length < 2 ^ 32 := by
    rw [spaces_size]
    unfold MAX_PTR
    omega
  have hinOrder : Session.RunInOrder (spacesStarts MAX_PTR) 1 [.lineToken MAX_PTR] := by
    intro done call t hdone ht
    rcases Lists.concat_prefix_cons hdone with ⟨rfl, rfl⟩ | ⟨_, rfl, h⟩
    . exact ⟨MAX_PTR, spaces_codePoints (Nat.le_refl _)⟩
    exact absurd h.length_le (by simp)
  obtain ⟨t, ht, hexact⟩ := h .UTF8 _ (spacesStarts MAX_PTR) 1 _ hsize hinOrder _ prefix_rfl
  exact Session.not_exact_at_max (spacesStarts MAX_PTR) 1 hsize ht hexact

end TokenStreamAnyChars

end SpiderMonkey.Frontend
