import SpiderMonkey.Jit.Lemmas.JitcodeRegionEntry

/-!
This module contains what the table that maps the native code of Ion to bytecode answers: how it is laid out in the
memory, which region its searches find, and the theorem.
-/

open List

namespace SpiderMonkey

open ByteStream JitcodeRegionEntry

variable {JSScript : Type} {scriptList : List JSScript}

namespace JitcodeRegionEntry

theorem expectedRunLengthFrom_spec [DecidableEq JSScript] {entry : NativeToBytecode JSScript} {rest : List (NativeToBytecode JSScript)}
    {runLength : Nat} (hfits : ∀ e ∈ entry :: rest, Fits e)
    : runLength ≤ expectedRunLengthFrom entry.tree runLength entry.nativeOffset entry.pc rest ∧ (entry :: rest.take
        (expectedRunLengthFrom entry.tree runLength entry.nativeOffset entry.pc rest - runLength)).IsChain Follows := by
  induction rest generalizing entry runLength with
  | nil => simp [expectedRunLengthFrom]
  | cons nextEntry rest ih =>
    have hstop : runLength ≤ runLength
        ∧ (entry :: (nextEntry :: rest).take (runLength - runLength)).IsChain Follows := by simp
    have hnext := hfits nextEntry (by simp)
    rw [expectedRunLengthFrom]
    simp only [uint32_eq_self hnext.nativeOffset_lt, uint32_eq_self hnext.pc_lt]
    split
    . exact hstop
    next htree =>
      split
      . exact hstop
      next henc =>
        have hfollows : Follows entry nextEntry := ⟨not_not.mp htree, not_not.mp henc⟩
        split
        . refine ⟨by omega, ?_⟩
          rw [Nat.add_sub_cancel_left, take_succ_cons, take_zero]
          exact .cons_cons hfollows (.singleton _)
        obtain ⟨hle, hchain⟩ := @ih nextEntry (runLength + 1) (fun e he => hfits e (mem_cons_of_mem _ he))
        rw [hfollows.tree_eq] at hle hchain
        refine ⟨by omega, ?_⟩
        obtain ⟨more, hmore⟩ := Nat.exists_eq_add_of_le hle
        rw [hmore, Nat.add_sub_cancel_left] at hchain
        rw [hmore, show runLength + 1 + more - runLength = more + 1 by omega, take_succ_cons]
        exact .cons_cons hfollows hchain

theorem tree_eq_of_follows {entry : NativeToBytecode JSScript} {rest : List (NativeToBytecode JSScript)}
    (h : (entry :: rest).IsChain Follows)
    : ∀ e ∈ entry :: rest, e.tree = entry.tree := by
  induction rest generalizing entry with
  | nil => simp
  | cons next rest ih =>
    obtain ⟨hfollows, hchain⟩ := isChain_cons_cons.mp h
    intro e he
    cases he with
    | head => rfl
    | tail _ he => rw [ih hchain e he, hfollows.tree_eq]

end JitcodeRegionEntry

namespace JitcodeIonTable

structure Run (JSScript : Type) where
  entry : NativeToBytecode JSScript
  rest : List (NativeToBytecode JSScript)
  bytes : List (BitVec 8)

namespace Run

def entries (runs : List (Run JSScript)) : List (NativeToBytecode JSScript) :=
  runs.flatMap fun run => run.entry :: run.rest

def payload (runs : List (Run JSScript)) : List (BitVec 8) := runs.flatMap (·.bytes)

def start (runs : List (Run JSScript)) (i : Nat) : Nat := (payload (runs.take i)).length

structure Written [DecidableEq JSScript] (scriptList : List JSScript) (run : Run JSScript) : Prop where
  bytes : RunBytes scriptList run.entry run.rest run.bytes
  tree_eq : ∀ e ∈ run.entry :: run.rest, e.tree = run.entry.tree

end Run

open Run

section Write

variable {entries : List (NativeToBytecode JSScript)}

theorem exists_writeRuns [DecidableEq JSScript] {rounds : Nat} (hlength : scriptList.length < 2 ^ 32) (hadvances : entries.IsChain Advances)
    (hfits : ∀ e ∈ entries, Fits e) (hdepth : ∀ e ∈ entries, e.tree.depth ≤ 0xff)
    (hlisted : ∀ e ∈ entries, Listed scriptList (e.tree.callStack e.pc)) (hrounds : entries.length < rounds)
    : ∃ runs, Run.entries runs = entries ∧ (∀ run ∈ runs, run.Written scriptList)
      ∧ ∀ runOffsets writer, writeRuns scriptList rounds entries runOffsets writer
        = some (runOffsets ++ (List.range runs.length).map fun i => uint32 (writer.length + start runs i),
            writer ++ payload runs) := by
  induction rounds generalizing entries with
  | zero => omega
  | succ rounds ih =>
    cases entries with
    | nil => exact ⟨[], rfl, by simp, fun runOffsets writer => by simp [writeRuns, payload]⟩
    | cons entry rest =>
      have hentry := hfits entry mem_cons_self
      obtain ⟨n, hn⟩ : ∃ n, ExpectedRunLength entry rest = n := ⟨_, rfl⟩
      obtain ⟨hpos, hfollows⟩ := @expectedRunLengthFrom_spec _ _ entry rest 1 hfits
      have hn' := hn
      rw [ExpectedRunLength, uint32_eq_self hentry.nativeOffset_lt, uint32_eq_self hentry.pc_lt] at hn'
      rw [hn'] at hpos hfollows
      obtain ⟨n, rfl⟩ : ∃ m, n = m + 1 := ⟨n - 1, by omega⟩
      obtain ⟨bytes, hwrite, hbytes⟩ := exists_writeRun hlength (hlisted entry mem_cons_self)
        (hdepth entry mem_cons_self) hfits hfollows hadvances
      have hmem {e : NativeToBytecode JSScript} (he : e ∈ rest.drop n) : e ∈ entry :: rest :=
        mem_cons_of_mem _ (mem_of_mem_drop he)
      have hlt : (rest.drop n).length < rounds := by
        rw [length_cons] at hrounds
        rw [length_drop]
        omega
      obtain ⟨runs, hentries, hruns, hwrites⟩ := @ih (rest.drop n) (hadvances.drop (n + 1))
        (fun e he => hfits e (hmem he)) (fun e he => hdepth e (hmem he)) (fun e he => hlisted e (hmem he)) hlt
      refine ⟨⟨entry, rest.take n, bytes⟩ :: runs, ?_, ?_, fun runOffsets writer => ?_⟩
      . rw [Run.entries, flatMap_cons, ← Run.entries, hentries, cons_append, take_append_drop]
      . exact forall_mem_cons.mpr ⟨⟨hbytes, tree_eq_of_follows hfollows⟩, hruns⟩
      rw [writeRuns]
      simp only [hn, hwrite writer, some_bind, drop_succ_cons, hwrites,
        length_cons, range_succ_eq_map, map_cons, map_map, append_assoc, payload, start,
        take_succ_cons, flatMap_cons, take_zero, flatMap_nil, length_nil, Nat.add_zero,
        cons_append, nil_append, Function.comp_def, length_append, Nat.add_assoc]

structure Laid (table : JitcodeIonTable) (runs : List (Run JSScript)) (padding : Nat) : Prop where
  memory_eq : table.memory = payload runs ++ (List.replicate padding 0 ++ (table.endianness.bytes runs.length
    ++ (List.range runs.length).flatMap fun i => table.endianness.bytes (table.payloadEnd - start runs i)))
  payloadEnd_eq : table.payloadEnd = (payload runs).length + padding
  payloadEnd_lt : table.payloadEnd < 2 ^ 32
  length_lt : runs.length < 2 ^ 32

theorem start_le (runs : List (Run JSScript)) (i : Nat)
    : start runs i ≤ (payload runs).length := by
  have h : payload runs = payload (runs.take i) ++ payload (runs.drop i) := by
    rw [payload, payload, payload, ← flatMap_append, take_append_drop]
  rw [h, length_append, start]
  omega

theorem length_le_payload {runs : List (Run JSScript)} (hruns : ∀ run ∈ runs, run.bytes ≠ [])
    : runs.length ≤ (payload runs).length := by
  induction runs with
  | nil => exact Nat.zero_le _
  | cons run runs ih =>
    obtain ⟨hrun, hruns⟩ := forall_mem_cons.mp hruns
    have := ih hruns
    have := length_pos_iff.mpr hrun
    rw [payload, flatMap_cons, length_append, ← payload, length_cons]
    omega

theorem fold_writeByte (padding : Nat) (writer : CompactBufferWriter)
    : padding.fold (fun _ _ writer => CompactBufferWriter.writeByte 0 writer) writer
        = writer ++ List.replicate padding 0 := by
  induction padding with
  | zero => simp
  | succ padding ih =>
    rw [Nat.fold_succ, ih, replicate_succ']
    exact append_assoc _ _ _

def tableBytes (endianness : Endianness) (runs : List (Run JSScript)) (padding : Nat) : List (BitVec 8) :=
  List.replicate padding 0 ++ (endianness.bytes (uint32 runs.length) ++ (List.range runs.length).flatMap fun i =>
      endianness.bytes (uint32 (uint32 ((payload runs).length + padding) + 2 ^ 32 - uint32 (start runs i))))

theorem laid_tableBytes {endianness : Endianness} {runs : List (Run JSScript)}
    (hne : ∀ run ∈ runs, run.bytes ≠ []) (hsize : (payload runs ++ tableBytes endianness runs padding).length < 2 ^ 32)
    : Laid ⟨endianness, payload runs ++ tableBytes endianness runs padding,
        uint32 ((payload runs).length + padding)⟩ runs padding := by
  have hle := length_le_payload hne
  have hlt : (payload runs).length + padding < 2 ^ 32 := by
    rw [tableBytes, length_append, length_append, length_replicate] at hsize
    omega
  have hoffset (i : Nat) : uint32 ((payload runs).length + padding + 2 ^ 32 - uint32 (start runs i))
      = (payload runs).length + padding - start runs i := by
    have := start_le runs i
    rw [uint32_eq_self (show start runs i < 2 ^ 32 by omega), uint32]
    omega
  refine ⟨?_, uint32_eq_self hlt, Nat.mod_lt _ (by decide), by omega⟩
  simp only [tableBytes, uint32_eq_self hlt, hoffset, uint32_eq_self (show runs.length < 2 ^ 32 by omega)]

theorem exists_writeIonTable [DecidableEq JSScript] (endianness : Endianness) (hlength : scriptList.length < 2 ^ 32)
    (hadvances : entries.IsChain Advances) (hfits : ∀ e ∈ entries, Fits e) (hdepth : ∀ e ∈ entries, e.tree.depth ≤ 0xff)
    (hlisted : ∀ e ∈ entries, Listed scriptList (e.tree.callStack e.pc))
    : ∃ runs padding, Run.entries runs = entries ∧ (∀ run ∈ runs, run.Written scriptList)
      ∧ WriteIonTable endianness scriptList entries []
        = some (payload runs ++ tableBytes endianness runs padding, uint32 ((payload runs).length + padding),
            runs.length) := by
  obtain ⟨runs, hentries, hruns, hwrites⟩ :=
    exists_writeRuns hlength hadvances hfits hdepth hlisted (Nat.lt_succ_self _)
  obtain ⟨padding, hpadding⟩ : ∃ padding, (if 4 - (payload runs).length % 4 = 4 then 0
      else 4 - (payload runs).length % 4) = padding := ⟨_, rfl⟩
  refine ⟨runs, padding, hentries, hruns, ?_⟩
  rw [WriteIonTable, hwrites]
  simp only [some_bind, nil_append, hpadding, fold_writeByte, Option.pure_def,
    CompactBufferWriter.writeNativeEndianUint32_t, foldl_append_eq_append, length_map, length_range,
    length_nil, Nat.zero_add, flatMap_def, map_map, Function.comp_def, tableBytes, append_assoc, length_append,
    length_replicate]

end Write

section Read

variable {table : JitcodeIonTable} {runs : List (Run JSScript)} {padding i : Nat}

theorem at_flatMap {α : Type} {l : List α} {f : α → List (BitVec 8)} {k i : Nat} (hf : ∀ a, (f a).length = k)
    (hi : i < l.length)
    : At (l.flatMap f) (k * i) (f l[i]) := by
  have hsplit : l.flatMap f = (l.take i).flatMap f ++ (f l[i] ++ (l.drop (i + 1)).flatMap f) := by
    rw [← flatMap_cons, ← drop_eq_getElem_cons hi, ← flatMap_append, take_append_drop]
  have hstart : ((l.take i).flatMap f).length = k * i := by
    rw [length_flatMap, map_congr_left (fun a _ => hf a), map_const', sum_replicate_nat, length_take,
      Nat.min_eq_left hi.le, Nat.mul_comm]
  rw [hsplit, ← hstart]
  exact (at_append.mp at_length).left

theorem Laid.payloadEnd_length (h : Laid table runs padding)
    : table.payloadEnd = (payload runs ++ List.replicate padding (0 : BitVec 8)).length := by
  rw [h.payloadEnd_eq, length_append, length_replicate]

theorem Laid.numRegions_eq (h : Laid table runs padding)
    : table.numRegions = some runs.length := by
  have hat : At table.memory table.payloadEnd (table.endianness.bytes runs.length) := by
    rw [h.memory_eq, ← append_assoc, h.payloadEnd_length]
    exact (at_append.mp at_length).left
  exact Endianness.load_bytes h.length_lt hat

theorem Laid.regionOffset_eq (h : Laid table runs padding) (hi : i < runs.length)
    : table.regionOffset i = some (table.payloadEnd - start runs i) := by
  have hlength : table.payloadEnd + 4
      = (payload runs ++ List.replicate padding 0 ++ table.endianness.bytes runs.length).length := by
    rw [length_append, ← h.payloadEnd_length, Endianness.bytes_length]
  have hrange : i < (List.range runs.length).length := by rwa [length_range]
  have hslot : At table.memory (table.payloadEnd + 4 + 4 * i)
      (table.endianness.bytes (table.payloadEnd - start runs i)) := by
    have := @at_flatMap _ (List.range runs.length)
      (fun i => table.endianness.bytes (table.payloadEnd - start runs i)) 4 i (fun _ => Endianness.bytes_length) hrange
    rw [getElem_range] at this
    rw [h.memory_eq, ← append_assoc, ← append_assoc, hlength]
    exact this.append_left _
  have hlt : table.payloadEnd - start runs i < 2 ^ 32 := by
    have := h.payloadEnd_lt
    omega
  rw [regionOffset, h.numRegions_eq]
  simp only [some_bind, guard, hi, ↓reduceIte]
  exact Endianness.load_bytes hlt hslot

theorem start_succ (hi : i < runs.length)
    : start runs (i + 1) = start runs i + runs[i].bytes.length := by
  rw [start, start, take_succ_eq_append_getElem hi, payload, flatMap_append, length_append]
  simp [payload]

theorem payload_eq (hi : i < runs.length)
    : payload runs = payload (runs.take i) ++ (runs[i].bytes ++ payload (runs.drop (i + 1))) := by
  rw [payload, payload, payload, ← flatMap_cons, ← drop_eq_getElem_cons hi, ← flatMap_append, take_append_drop]

theorem entries_eq (hi : i < runs.length)
    : Run.entries runs = Run.entries (runs.take i)
        ++ (runs[i].entry :: runs[i].rest ++ Run.entries (runs.drop (i + 1))) := by
  have hcons : runs[i].entry :: runs[i].rest ++ Run.entries (runs.drop (i + 1)) = Run.entries (runs.drop i) := by
    rw [drop_eq_getElem_cons hi, Run.entries, Run.entries, flatMap_cons]
  rw [hcons, Run.entries, Run.entries, Run.entries, ← flatMap_append, take_append_drop]

theorem Laid.regionEntry_describes [DecidableEq JSScript] (h : Laid table runs padding)
    (hruns : ∀ run ∈ runs, run.Written scriptList) (hfits : ∀ e ∈ Run.entries runs, Fits e)
    (hsorted : (Run.entries runs).Pairwise (·.nativeOffset < ·.nativeOffset)) (hi : i < runs.length)
    : ∃ region, table.regionEntry i = some region ∧ Describes scriptList runs[i].entry runs[i].rest region := by
  have hrun := hruns runs[i] (getElem_mem hi)
  rw [entries_eq hi] at hsorted hfits
  have hsorted := (pairwise_append.mp (pairwise_append.mp hsorted).right.left).left
  have hentry := hfits runs[i].entry (by simp)
  have hpayload := payload_eq hi
  have hle := start_le runs i
  have hend := h.payloadEnd_eq
  have hstart : table.payloadEnd - (table.payloadEnd - start runs i) = start runs i := by omega
  have hmemory : At table.memory (start runs i) (runs[i].bytes ++ payload (runs.drop (i + 1))
      ++ (List.replicate padding 0 ++ (table.endianness.bytes runs.length
        ++ (List.range runs.length).flatMap fun i => table.endianness.bytes (table.payloadEnd - start runs i)))) := by
    rw [h.memory_eq, hpayload, append_assoc, append_assoc]
    exact at_length
  rw [regionEntry, h.regionOffset_eq hi, h.numRegions_eq]
  simp only [some_bind, hstart]
  split
  next hmore =>
    have hnext : i + 1 < runs.length := by omega
    have hle' := start_le runs (i + 1)
    have hstop : table.payloadEnd - (table.payloadEnd - start runs (i + 1)) = start runs i + runs[i].bytes.length + 0 := by
      rw [← start_succ hi]
      omega
    rw [h.regionOffset_eq hnext, some_bind, hstop]
    apply unpack_describes hrun.bytes hentry hsorted
    rw [replicate_zero, append_nil]
    exact (at_append.mp (at_append.mp hmemory).left).left
  next hlast =>
    have hnil : runs.drop (i + 1) = [] := drop_eq_nil_of_le (by omega)
    have hstop : table.payloadEnd = start runs i + runs[i].bytes.length + padding := by
      rw [hend, hpayload, hnil, start]
      simp [payload]
    rw [hnil, payload, flatMap_nil, append_nil, ← append_assoc] at hmemory
    rw [hstop]
    exact unpack_describes hrun.bytes hentry hsorted (at_append.mp hmemory).left

end Read

section Search

variable {table : JitcodeIonTable} {nativeOffsets : Nat → Nat} {nativeOffset regions : Nat}

structure LastBelow (nativeOffsets : Nat → Nat) (nativeOffset regions idx : Nat) : Prop where
  lt : idx < regions
  below : idx = 0 ∨ nativeOffsets idx < nativeOffset
  above (i : Nat) : idx < i → i < regions → nativeOffset ≤ nativeOffsets i

structure Starts (table : JitcodeIonTable) (nativeOffsets : Nat → Nat) (regions : Nat) : Prop where
  numRegions_eq : table.numRegions = some regions
  regionEntry_eq (i : Nat) : i < regions
    → ∃ region, table.regionEntry i = some region ∧ region.nativeOffset = nativeOffsets i
  increasing (i j : Nat) : i < j → j < regions → nativeOffsets i < nativeOffsets j

theorem linearSearch_spec {left i : Nat} (h : Starts table nativeOffsets regions)
    (hi : i + left = regions) (hpos : 0 < i) (hprevious : previousEntry.nativeOffset = nativeOffsets (i - 1))
    (hbelow : i - 1 = 0 ∨ nativeOffsets (i - 1) < nativeOffset)
    : ∃ idx, table.linearSearch nativeOffset regions left i previousEntry = some idx
      ∧ LastBelow nativeOffsets nativeOffset regions idx := by
  induction left generalizing i previousEntry with
  | zero =>
    obtain rfl : i = regions := hi
    exact ⟨i - 1, rfl, by omega, hbelow, fun j hlt hlt' => by omega⟩
  | succ left ih =>
    obtain ⟨nextEntry, hnext, hoffset⟩ := h.regionEntry_eq i (by omega)
    have hge : nativeOffsets i ≥ previousEntry.nativeOffset := by
      rw [hprevious]
      exact (h.increasing (i - 1) i (by omega) (by omega)).le
    rw [linearSearch, hnext]
    simp only [some_bind, guard, hge, ↓reduceIte, Option.pure_def, hoffset]
    split
    next hle =>
      refine ⟨i - 1, rfl, by omega, hbelow, fun j hlt hlt' => ?_⟩
      by_cases hj : j = i
      . rwa [hj]
      . have := h.increasing i j (by omega) hlt'
        omega
    next hle => exact ih (by omega) (by omega) hoffset (Or.inr (by simpa using hle))

theorem binarySearch_spec {idx count : Nat} (h : Starts table nativeOffsets regions) (hcount : 0 < count)
    (hle : idx + count ≤ regions) (hbelow : idx = 0 ∨ nativeOffsets idx < nativeOffset)
    (habove : ∀ i, idx + count ≤ i → i < regions → nativeOffset ≤ nativeOffsets i)
    : ∃ idx', table.binarySearch nativeOffset idx count = some idx'
      ∧ LastBelow nativeOffsets nativeOffset regions idx' := by
  induction count using Nat.strong_induction_on generalizing idx with
  | _ count ih =>
    rw [binarySearch]
    split
    next hmore =>
      obtain ⟨midEntry, hmid, hoffset⟩ := h.regionEntry_eq (idx + count / 2) (by omega)
      simp only [hmid, some_bind, hoffset]
      split
      next hquery =>
        apply ih (count / 2) (by omega) (by omega) (by omega) hbelow
        intro i hge hlt
        by_cases hi : i = idx + count / 2
        . rwa [hi]
        . have := h.increasing (idx + count / 2) i (by omega) hlt
          omega
      next hquery =>
        refine ih (count - count / 2) (by omega) (by omega) (by omega) (Or.inr (by omega)) fun i hge hlt => ?_
        exact habove i (by omega) hlt
    next hlast => exact ⟨idx, rfl, by omega, hbelow, fun i hlt hlt' => habove i (by omega) hlt'⟩

theorem findRegionEntry_spec (h : Starts table nativeOffsets regions) (hpos : 0 < regions)
    : ∃ idx, table.findRegionEntry nativeOffset = some idx ∧ LastBelow nativeOffsets nativeOffset regions idx := by
  rw [findRegionEntry, h.numRegions_eq]
  simp only [some_bind, guard, gt_iff_lt, hpos, ↓reduceIte, Option.pure_def]
  split
  . obtain ⟨previousEntry, hprevious, hoffset⟩ := h.regionEntry_eq 0 hpos
    rw [hprevious, some_bind]
    exact linearSearch_spec h (by omega) Nat.one_pos hoffset (Or.inl rfl)
  . exact binarySearch_spec h hpos (by omega) (Or.inl rfl) (fun i hge hlt => by omega)

end Search
end JitcodeIonTable

open ByteStream JitcodeRegionEntry JitcodeIonTable

variable {JSScript : Type}

namespace JitcodeRegionEntry

variable {entry first : NativeToBytecode JSScript} {rest others before after : List (NativeToBytecode JSScript)}
variable {queryNativeOffset : Nat}

theorem entryFor_mem
    : entryFor entry rest queryNativeOffset ∈ entry :: rest := by
  rw [entryFor_eq]
  cases hlast : (rest.filter (·.nativeOffset < queryNativeOffset)).getLast? with
  | none => exact mem_cons_self
  | some e => exact mem_cons_of_mem _ (mem_filter.mp (mem_of_getLast? hlast)).left

theorem entryFor_middle (hlist : first :: others = before ++ (entry :: rest ++ after))
    (hbefore : before = [] ∨ entry.nativeOffset < queryNativeOffset)
    (hafter : ∀ e ∈ after, queryNativeOffset ≤ e.nativeOffset)
    : entryFor first others queryNativeOffset = entryFor entry rest queryNativeOffset := by
  have hnone : after.filter (·.nativeOffset < queryNativeOffset) = [] := by
    rw [filter_eq_nil_iff]
    intro e he
    have := hafter e he
    simp only [decide_eq_true_eq]
    omega
  rw [entryFor, hlist, filter_append, filter_append, hnone, append_nil]
  rcases hbefore with rfl | hbelow
  . obtain ⟨rfl, -⟩ := List.cons.inj hlist
    rfl
  . rw [entryFor_eq, filter_cons_of_pos (by simpa using hbelow), List.getLast?_append, List.getLast?_cons]
    rfl

end JitcodeRegionEntry

-- What the caller promises: the entries are in order, their values fit their types, their scripts are listed.
structure NativeToBytecodeList (JSScript : Type) where
  scriptList : List JSScript
  first : NativeToBytecode JSScript
  others : List (NativeToBytecode JSScript)
  scriptList_length : scriptList.length < 2 ^ 32
  advances : (first :: others).IsChain Advances
  fits : ∀ entry ∈ first :: others, Fits entry
  depth_le : ∀ entry ∈ first :: others, entry.tree.depth ≤ 0xff
  listed : ∀ entry ∈ first :: others, Listed scriptList (entry.tree.callStack entry.pc)

theorem NativeToBytecodeList.sorted (list : NativeToBytecodeList JSScript)
    : (list.first :: list.others).Pairwise (·.nativeOffset < ·.nativeOffset) := by
  have : IsTrans (NativeToBytecode JSScript) (·.nativeOffset < ·.nativeOffset) := ⟨fun _ _ _ => Nat.lt_trans⟩
  exact isChain_iff_pairwise.mp (list.advances.imp fun _ _ h => h.nativeOffset_lt)

namespace JitcodeIonTable

variable {runs : List (Run JSScript)} {i j : Nat}

theorem entry_lt_entry (hsorted : (Run.entries runs).Pairwise (·.nativeOffset < ·.nativeOffset)) (hlt : i < j)
    (hj : j < runs.length)
    : runs[i].entry.nativeOffset < runs[j].entry.nativeOffset := by
  rw [entries_eq (show i < runs.length by omega)] at hsorted
  have hafter := (pairwise_append.mp (pairwise_append.mp hsorted).right.left).right.right
  apply hafter _ mem_cons_self
  rw [Run.entries, mem_flatMap]
  refine ⟨runs[j], mem_drop_iff_getElem.mpr ⟨j - (i + 1), by omega, ?_⟩, mem_cons_self⟩
  congr 1
  omega

theorem entries_drop_ge (hsorted : (Run.entries runs).Pairwise (·.nativeOffset < ·.nativeOffset))
    (habove : (hi : i < runs.length) → queryNativeOffset ≤ runs[i].entry.nativeOffset)
    : ∀ e ∈ Run.entries (runs.drop i), queryNativeOffset ≤ e.nativeOffset := by
  by_cases hi : i < runs.length
  . have habove := habove hi
    rw [entries_eq hi] at hsorted
    have hcons : Run.entries (runs.drop i) = runs[i].entry :: runs[i].rest ++ Run.entries (runs.drop (i + 1)) := by
      rw [drop_eq_getElem_cons hi, Run.entries, flatMap_cons, ← Run.entries]
    have hsorted := (pairwise_append.mp hsorted).right.left
    intro e he
    rw [hcons] at he
    cases he with
    | head => exact habove
    | tail _ he => exact habove.trans (rel_of_pairwise_cons hsorted he).le
  . rw [drop_eq_nil_of_le (by omega)]
    exact fun e he => nomatch he

end JitcodeIonTable

namespace IonEntry

variable [DecidableEq JSScript] {scriptList : List JSScript}

theorem mapM_scriptPcs {stack : List (JSScript × Nat)} (hlisted : ∀ location ∈ stack, location.fst ∈ scriptList)
    : ((scriptPcs scriptList stack).mapM fun location => do
        let script ← scriptList[location.fst]?
        return (script, location.snd)) = some stack := by
  induction stack with
  | nil => rfl
  | cons location stack ih =>
    obtain ⟨hmem, hlisted⟩ := forall_mem_cons.mp hlisted
    have hscript : scriptList[scriptList.idxOf location.fst]? = some location.fst := List.getElem?_idxOf hmem
    have ih := ih hlisted
    rw [scriptPcs] at ih ⊢
    rw [map_cons, mapM_cons, ih]
    simp [hscript]

theorem callStackAtAddr_eq {entry : IonEntry JSScript} {rest : List (NativeToBytecode JSScript)}
    (hregion : entry.RegionAtAddr ptrOffset = some region) (hdescribes : Describes entry.scriptList runEntry rest region)
    (hlisted : Listed entry.scriptList (runEntry.tree.callStack runEntry.pc))
    : entry.callStackAtAddr ptrOffset = some (runEntry.tree.callStack (entryFor runEntry rest ptrOffset).pc) := by
  obtain ⟨script, callers, hstack⟩ : ∃ script callers, ∀ pc, runEntry.tree.callStack pc = (script, pc) :: callers := by
    cases runEntry.tree with
    | outermost address script => exact ⟨script, [], fun pc => rfl⟩
    | inlined address caller callerPc script => exact ⟨script, caller.callStack callerPc, fun pc => rfl⟩
  have hpairs := hdescribes.scriptPcs_eq
  have hmapM := @mapM_scriptPcs _ _ entry.scriptList (runEntry.tree.callStack (entryFor runEntry rest ptrOffset).pc)
  rw [hstack, scriptPcs, map_cons] at hpairs hmapM
  rw [hstack] at hlisted
  rw [callStackAtAddr, hregion, some_bind, hpairs, some_bind, hstack]
  simp only [hdescribes.findPcOffset_eq, some_bind]
  apply hmapM
  intro location hlocation
  cases hlocation with
  | head => exact (hlisted _ mem_cons_self).left
  | tail _ hlocation => exact (hlisted _ (mem_cons_of_mem _ hlocation)).left

theorem callStackAtAddr_of_laid {entry : IonEntry JSScript}
    {first : NativeToBytecode JSScript} {others : List (NativeToBytecode JSScript)}
    (hlaid : Laid entry.regionTable runs padding) (hruns : ∀ run ∈ runs, run.Written entry.scriptList)
    (hentries : Run.entries runs = first :: others) (hfits : ∀ e ∈ first :: others, Fits e)
    (hsorted : (first :: others).Pairwise (·.nativeOffset < ·.nativeOffset))
    (hlisted : ∀ e ∈ first :: others, Listed entry.scriptList (e.tree.callStack e.pc))
    : entry.callStackAtAddr ptrOffset
        = some ((entryFor first others ptrOffset).tree.callStack (entryFor first others ptrOffset).pc) := by
  rw [← hentries] at hfits hsorted hlisted
  have hpos : 0 < runs.length := by
    cases runs with
    | nil => exact nomatch hentries
    | cons run runs => exact Nat.succ_pos _
  have hdescribes (i : Nat) (hi : i < runs.length) := hlaid.regionEntry_describes hruns hfits hsorted hi
  have hstarts : Starts entry.regionTable (fun i => if h : i < runs.length then runs[i].entry.nativeOffset else 0)
      runs.length := by
    refine ⟨hlaid.numRegions_eq, fun i hi => ?_, fun i j hlt hj => ?_⟩
    . obtain ⟨region, hregion, hdescribes⟩ := hdescribes i hi
      exact ⟨region, hregion, by rw [dif_pos hi, hdescribes.nativeOffset_eq]⟩
    . rw [dif_pos (show i < runs.length by omega), dif_pos hj]
      exact entry_lt_entry hsorted hlt hj
  obtain ⟨idx, hidx, hlt, hbelow, habove⟩ := @findRegionEntry_spec _ _ ptrOffset _ hstarts hpos
  obtain ⟨region, hregion, hdescribes⟩ := hdescribes idx hlt
  have hat : entry.RegionAtAddr ptrOffset = some region := by
    rw [RegionAtAddr, hidx, some_bind, hregion]
  have hsplit := entries_eq hlt
  have hmiddle : entryFor first others ptrOffset = entryFor runs[idx].entry runs[idx].rest ptrOffset := by
    apply entryFor_middle (hentries.symm.trans hsplit)
    . rcases hbelow with rfl | hbelow
      . exact Or.inl rfl
      . rw [dif_pos hlt] at hbelow
        exact Or.inr hbelow
    apply entries_drop_ge hsorted
    intro hi
    have := habove (idx + 1) (Nat.lt_succ_self idx) hi
    rwa [dif_pos hi] at this
  have hmem : runs[idx].entry ∈ Run.entries runs := by
    rw [hsplit]
    simp
  rw [callStackAtAddr_eq hat hdescribes (hlisted _ hmem), hmiddle,
    (hruns runs[idx] (getElem_mem hlt)).tree_eq _ entryFor_mem]

theorem callStackAtAddr_exact (endianness : Endianness) (list : NativeToBytecodeList JSScript)
    : ∃ writer tableOffset numRegions, WriteIonTable endianness list.scriptList (list.first :: list.others) []
          = some (writer, tableOffset, numRegions)
        ∧ (writer.length < 2 ^ 32 → ∀ ptrOffset : Nat,
          (IonEntry.mk ⟨endianness, writer, tableOffset⟩ list.scriptList).callStackAtAddr ptrOffset
            = some ((entryFor list.first list.others ptrOffset).tree.callStack
                (entryFor list.first list.others ptrOffset).pc))
        ∧ ∀ (nativeDelta : Nat) (pcDelta : Int), IsDeltaEncodeable nativeDelta pcDelta → 0 < nativeDelta → pcDelta ≠ 0
          → ∀ writer, ∃ writer', WriteDelta nativeDelta pcDelta writer = some writer'
            ∧ ReadDelta ⟨writer', writer.length, writer'.length⟩
                = some ((nativeDelta, pcDelta), ⟨writer', writer'.length, writer'.length⟩) := by
  obtain ⟨runs, padding, hentries, hruns, hwrite⟩ := exists_writeIonTable endianness list.scriptList_length
    list.advances list.fits list.depth_le list.listed
  refine ⟨_, _, _, hwrite, fun hsize ptrOffset => ?_, fun nativeDelta pcDelta henc hpos hne writer => ?_⟩
  . have hne : ∀ run ∈ runs, run.bytes ≠ [] := fun run hrun => (hruns run hrun).bytes.ne_nil
    exact callStackAtAddr_of_laid (laid_tableBytes hne hsize) hruns hentries list.fits list.sorted list.listed
  obtain ⟨bytes, -, hwrites, hreads⟩ := exists_writeDelta_reads henc hne (fun hzero => absurd hzero hpos.ne')
  refine ⟨writer ++ bytes, hwrites writer, ?_⟩
  have hat : At (writer ++ bytes) writer.length bytes := at_length
  rw [length_append]
  exact hreads _ _ _ hat (Nat.le_refl _)

def inlinedFrame : InlineScriptTree Bool := .inlined 1 (.outermost 0 false) 3 true

def inlinedList : NativeToBytecodeList Bool where
  scriptList := [false, true]
  first := ⟨0, .outermost 0 false, 0⟩
  others := [⟨10, inlinedFrame, 0⟩, ⟨14, inlinedFrame, 5⟩, ⟨20, .outermost 0 false, 6⟩]
  scriptList_length := by decide
  advances := by
    refine .cons_cons ⟨?_, .inl ?_⟩ (.cons_cons ⟨?_, .inr ?_⟩ (.cons_cons ⟨?_, .inl ?_⟩ (.singleton _))) <;> decide
  fits := by
    simp only [forall_mem_cons]
    refine ⟨⟨?_, ?_⟩, ⟨?_, ?_⟩, ⟨?_, ?_⟩, ⟨?_, ?_⟩, nofun⟩ <;> decide
  depth_le := by decide
  listed := by
    unfold Listed
    decide

theorem callStackAtAddr_exact_inlinedList
    : ∃ writer tableOffset numRegions, WriteIonTable .little inlinedList.scriptList
          (inlinedList.first :: inlinedList.others) [] = some (writer, tableOffset, numRegions)
        ∧ (writer.length < 2 ^ 32 →
          (IonEntry.mk ⟨.little, writer, tableOffset⟩ inlinedList.scriptList).callStackAtAddr 16
            = some [(true, 5), (false, 3)]) := by
  obtain ⟨writer, tableOffset, numRegions, hwrite, hread, _⟩ := callStackAtAddr_exact .little inlinedList
  exact ⟨writer, tableOffset, numRegions, hwrite, fun hsize => hread hsize 16⟩

end IonEntry

end SpiderMonkey
