import SpiderMonkey.Frontend.Lemmas.SourceCoords
import SpiderMonkey.Frontend.Lemmas.SourceUnits
import SpiderMonkey.Lib.Lists

/-!
This module contains the proofs that what is cached for the columns of a line is true of the text, and that the
column of an offset is the same whatever has been cached.
-/

namespace SpiderMonkey.Frontend

namespace TokenStreamAnyChars

open List

variable {e : Encoding} {s : SourceUnits e} {start offset p m n j : Nat}

open Segments

def ChunkAt (s : SourceUnits e) (start j : Nat) (chunk : ChunkInfo) : Prop :=
  ∃ q, s.CodePoints start q chunk.column ∧ Floor s.NextCodePoint (start + j * ColumnChunkLength) q
    ∧ (chunk.unitsType = .GuaranteedSingleUnit →
        ∃ r l, s.CodePoints start r l ∧ Floor s.NextCodePoint (start + (j + 1) * ColumnChunkLength) r
          ∧ q ≤ r ∧ s.CodePoints q r (r - q))

structure ChunksHold (s : SourceUnits e) (start : Nat) (chunks : List ChunkInfo) : Prop where
  length : chunks.length ≠ 1
  chunk : ∀ j chunk, chunks[j]? = some chunk → ChunkAt s start j chunk

theorem ChunksHold.nil : ChunksHold s start [] where
  length := Nat.noConfusion
  chunk := nofun

-- What the column computed last says when it is used in place of `p`.
def LastColumnHolds (c : TokenStreamAnyChars) (s : SourceUnits e) (start p offset : Nat) : Prop :=
  p < c.lastOffsetOfComputedColumn → c.lastOffsetOfComputedColumn ≤ offset
    → s.CodePoints start c.lastOffsetOfComputedColumn c.lastComputedColumn

section Column

variable {c : TokenStreamAnyChars} {unitsType : UnitsType} {chunk : ChunkInfo} {chunks : List ChunkInfo}

theorem ColumnFromPartial_eq (unitsType : UnitsType) (hstart : s.startOffset ≤ start) (ho : s.CodePoints start offset n)
    (hp : s.CodePoints start p m) (hle : p ≤ offset)
    (hunits : unitsType = .GuaranteedSingleUnit → s.CodePoints p offset (offset - p))
    (hlast : c.LastColumnHolds s start p offset)
    : c.ColumnFromPartial s offset p m unitsType
        = some (n, { c with lastOffsetOfComputedColumn := offset, lastComputedColumn := n }) := by
  have hseg := s.isSegmentation
  obtain ⟨p', m', hchoice, hp', hle', hunits'⟩ : ∃ p' m',
      (if p < c.lastOffsetOfComputedColumn ∧ c.lastOffsetOfComputedColumn ≤ offset then
        (c.lastOffsetOfComputedColumn, c.lastComputedColumn) else (p, m)) = (p', m')
      ∧ s.CodePoints start p' m' ∧ p' ≤ offset
      ∧ (unitsType = .GuaranteedSingleUnit → s.CodePoints p' offset (offset - p')) := by
    split
    next hcloser =>
      have hl := hlast hcloser.1 hcloser.2
      refine ⟨_, _, rfl, hl, hcloser.2, ?_⟩
      intro hsingle
      obtain ⟨k, -, hpl⟩ := hp.rest hseg hl (Nat.le_of_lt hcloser.1)
      exact (Count.of_units hseg (hunits hsingle) hpl hcloser.2).2
    next => exact ⟨p, m, rfl, hp, hle, hunits⟩
  obtain ⟨k, rfl, hk⟩ := hp'.rest hseg ho hle'
  have hstart' := hp'.le hseg
  have hdelta : s.codeUnitPtrAt offset - s.codeUnitPtrAt p' = offset - p' := by
    unfold SourceUnits.codeUnitPtrAt
    omega
  have hsum : p' + (offset - p') = offset := by omega
  unfold ColumnFromPartial
  rw [hchoice]
  dsimp only
  rw [hdelta, hsum]
  cases unitsType with
  | GuaranteedSingleUnit =>
    rw [hk.unique hseg (hunits' rfl)]
    rfl
  | PossiblyMultiUnit =>
    rw [SourceUnits.CodePoints.count hk]
    rfl

theorem RetractedOffsetOfChunk_eq (hstart : s.startOffset ≤ start) (ho : s.CodePoints start offset n) (hj : 1 ≤ j)
    (hle : start + j * ColumnChunkLength ≤ offset)
    : ∃ q m, s.CodePoints start q m ∧ Floor s.NextCodePoint (start + j * ColumnChunkLength) q
        ∧ RetractedOffsetOfChunk s start (s.codeUnitPtrAt offset) j = some q := by
  have hlo : start + 4 ≤ start + j * ColumnChunkLength := by
    unfold ColumnChunkLength
    omega
  obtain ⟨q, m, hq, hfloor, hretract⟩ := SourceUnits.exists_retract ho hlo hle
  refine ⟨q, m, hq, hfloor, ?_⟩
  have hfloor' := hfloor.le
  have hstart' := hq.le s.isSegmentation
  unfold RetractedOffsetOfChunk
  dsimp only
  rw [hretract, some_bind]
  unfold SourceUnits.codeUnitPtrAt
  congr 1
  omega

theorem ChunkAt.eq (h : ChunkAt s start j chunk) (hq : s.CodePoints start q l)
    (hfloor : Floor s.NextCodePoint (start + j * ColumnChunkLength) q) : chunk.column = l := by
  obtain ⟨q', hq', hfloor', -⟩ := h
  obtain rfl := hfloor.unique s.isSegmentation hfloor' hq hq'
  exact hq'.unique s.isSegmentation hq

theorem ChunkAt.units (h : ChunkAt s start j chunk) (hq : s.CodePoints start q l)
    (hfloor : Floor s.NextCodePoint (start + j * ColumnChunkLength) q) (ho : s.CodePoints start offset n)
    (hle : q ≤ offset) (hlt : offset < start + (j + 1) * ColumnChunkLength)
    (hsingle : chunk.unitsType = .GuaranteedSingleUnit) : s.CodePoints q offset (offset - q) := by
  have hseg := s.isSegmentation
  obtain ⟨q', hq', hfloor', hunits⟩ := h
  obtain rfl := hfloor.unique hseg hfloor' hq hq'
  obtain ⟨r, l', hr, hfloorr, hqr, hcount⟩ := hunits hsingle
  obtain ⟨k, -, hqo⟩ := hq.rest hseg ho hle
  have hor := hfloorr.le_of_count hseg hr ho (Nat.le_of_lt hlt)
  rw [(hcount.of_units hseg hqo hor).1] at hqo
  exact hqo

theorem columnInKnownChunk_eq (hstart : s.startOffset ≤ start) (ho : s.CodePoints start offset n)
    (hindex : chunkIndex = (offset - start) / ColumnChunkLength) (hpos : chunkIndex ≠ 0)
    (hchunk : ChunkAt s start chunkIndex chunk) (hlast : c.LastColumnHolds s start start offset)
    : ∃ q, RetractedOffsetOfChunk s start (s.codeUnitPtrAt offset) chunkIndex = some q
        ∧ c.ColumnFromPartial s offset q chunk.column chunk.unitsType
          = some (n, { c with lastOffsetOfComputedColumn := offset, lastComputedColumn := n }) := by
  have hle := ho.le s.isSegmentation
  have hbounds : start + chunkIndex * ColumnChunkLength ≤ offset
      ∧ offset < start + (chunkIndex + 1) * ColumnChunkLength := by
    unfold ColumnChunkLength at *
    omega
  obtain ⟨q, l, hq, hfloor, hretract⟩ := RetractedOffsetOfChunk_eq hstart ho (by omega) hbounds.1
  have hqo : q ≤ offset := hfloor.le.trans hbounds.1
  refine ⟨q, hretract, ?_⟩
  rw [hchunk.eq hq hfloor]
  apply ColumnFromPartial_eq _ hstart ho hq hqo
  . exact hchunk.units hq hfloor ho hqo hbounds.2
  intro hlt
  have := hq.le s.isSegmentation
  exact hlast (by omega)

theorem extendChunks_succ (rounds : Nat) (hstart : s.startOffset ≤ start)
    (ho : s.CodePoints start offset n) (hindex : chunkIndex = (offset - start) / ColumnChunkLength)
    (hpos : 1 ≤ entriesLen) (hle : entriesLen ≤ chunkIndex) (hlen : chunks.length + 1 = entriesLen)
    (hchunks : ∀ j c, (chunks ++ [chunk])[j]? = some c → ChunkAt s start j c) (hp : s.CodePoints start p chunk.column)
    (hfloor : Floor s.NextCodePoint (start + (entriesLen - 1) * ColumnChunkLength) p)
    : ∃ q l chunk', s.CodePoints start q l ∧ q ≤ offset
        ∧ Floor s.NextCodePoint (start + entriesLen * ColumnChunkLength) q
        ∧ (∀ j c, (chunks ++ [chunk'] ++ [⟨l, .PossiblyMultiUnit⟩])[j]? = some c → ChunkAt s start j c)
        ∧ extendChunks s start (offset - start) (s.codeUnitPtrAt offset) chunkIndex (rounds + 1) entriesLen p
            chunk.column (chunks ++ [chunk])
          = if entriesLen + 1 < chunkIndex + 1 then
              extendChunks s start (offset - start) (s.codeUnitPtrAt offset) chunkIndex rounds (entriesLen + 1) q l
                (chunks ++ [chunk'] ++ [⟨l, .PossiblyMultiUnit⟩])
            else some (q, l, chunks ++ [chunk'] ++ [⟨l, .PossiblyMultiUnit⟩]) := by
  have hseg := s.isSegmentation
  have hso := ho.le hseg
  have hbound : entriesLen * ColumnChunkLength ≤ offset - start := by
    unfold ColumnChunkLength at *
    omega
  have hmin : min (entriesLen * ColumnChunkLength) (offset - start) = entriesLen * ColumnChunkLength :=
    Nat.min_eq_left hbound
  have hlo : start + 4 ≤ start + entriesLen * ColumnChunkLength := by
    unfold ColumnChunkLength
    omega
  obtain ⟨q, l, hq, hfloorq, hretract⟩ := SourceUnits.exists_retract ho hlo (by omega)
  have hpq : p ≤ q := by
    apply hfloorq.le_of_count hseg hq hp
    have := hfloor.le
    have : (entriesLen - 1) * ColumnChunkLength ≤ entriesLen * ColumnChunkLength :=
      Nat.mul_le_mul_right _ (Nat.sub_le _ _)
    omega
  have hqo : q ≤ offset := by
    have := hfloorq.le
    omega
  obtain ⟨k, rfl, hk⟩ := hp.rest hseg hq hpq
  have hsp := hp.le hseg
  have hunits : s.codeUnitPtrAt q - s.codeUnitPtrAt p = q - p := by
    unfold SourceUnits.codeUnitPtrAt
    omega
  have hsum : p + (q - p) = q := by omega
  obtain ⟨chunk', hmodify, hchunk'⟩ : ∃ chunk', (if q - p = k then
        (chunks ++ [chunk]).modify ((chunks ++ [chunk]).length - 1) ChunkInfo.guaranteeSingleUnits
        else chunks ++ [chunk]) = chunks ++ [chunk']
      ∧ ChunkAt s start chunks.length chunk' := by
    have hlast : ChunkAt s start chunks.length chunk := hchunks _ _ List.getElem?_concat_length
    split
    next heq =>
      refine ⟨chunk.guaranteeSingleUnits, ?_, p, hp, ?_, ?_⟩
      . rw [length_append, length_singleton, Nat.add_sub_cancel, Lists.modify_concat]
      . rw [show chunks.length = entriesLen - 1 by omega]
        exact hfloor
      intro _
      rw [hlen]
      exact ⟨q, _, hq, hfloorq, hpq, heq ▸ hk⟩
    next => exact ⟨chunk, rfl, hlast⟩
  refine ⟨q, chunk.column + k, chunk', hq, hqo, hfloorq, ?_, ?_⟩
  . intro j c hc
    rcases Lists.getElem?_concat_cases hc with ⟨hlt, hc⟩ | ⟨rfl, rfl⟩
    . rcases Lists.getElem?_concat_cases hc with ⟨hlt', hc'⟩ | ⟨rfl, rfl⟩
      . apply hchunks
        rw [List.getElem?_append_left hlt', hc']
      . exact hchunk'
    . rw [length_append, length_singleton, hlen]
      exact ⟨q, hq, hfloorq, UnitsType.noConfusion⟩
  . rw [extendChunks]
    dsimp only
    rw [hmin, hretract, some_bind, SourceUnits.CodePoints.count hk, some_bind, hunits, hsum, hmodify]

theorem extendChunks_eq (rounds : Nat) (hstart : s.startOffset ≤ start)
    (ho : s.CodePoints start offset n) (hindex : chunkIndex = (offset - start) / ColumnChunkLength)
    (hpos : 1 ≤ entriesLen) (hle : entriesLen ≤ chunkIndex) (hrounds : chunkIndex - entriesLen < rounds)
    (hlen : chunks.length + 1 = entriesLen) (hchunks : ∀ j c, (chunks ++ [chunk])[j]? = some c → ChunkAt s start j c)
    (hp : s.CodePoints start p chunk.column)
    (hfloor : Floor s.NextCodePoint (start + (entriesLen - 1) * ColumnChunkLength) p)
    : ∃ q l chunks', extendChunks s start (offset - start) (s.codeUnitPtrAt offset) chunkIndex rounds entriesLen p
          chunk.column (chunks ++ [chunk]) = some (q, l, chunks')
        ∧ s.CodePoints start q l ∧ q ≤ offset ∧ ChunksHold s start chunks' := by
  induction rounds generalizing entriesLen chunks chunk p with
  | zero => omega
  | succ rounds ih =>
    obtain ⟨q, l, chunk', hq, hqo, hfloorq, hchunks', hrun⟩ :=
      extendChunks_succ rounds hstart ho hindex hpos hle hlen hchunks hp hfloor
    have hlen' : (chunks ++ [chunk']).length = entriesLen := by
      rw [length_append, length_singleton, hlen]
    rw [hrun]
    split
    next hmore =>
      exact ih (Nat.le_add_left _ _) (by omega) (by omega) (by rw [hlen']) hchunks' hq hfloorq
    next =>
      refine ⟨q, l, _, rfl, hq, hqo, ?_, hchunks'⟩
      rw [length_append, length_singleton, hlen']
      omega

theorem endOfChunks_eq (hstart : s.startOffset ≤ start) (ho : s.CodePoints start offset n)
    (hchunks : ChunksHold s start chunks) (hle : chunks.length ≤ (offset - start) / ColumnChunkLength)
    : ∃ q l, endOfChunks s start (s.codeUnitPtrAt offset) chunks = some (q, l) ∧ s.CodePoints start q l ∧ q ≤ offset
        ∧ Floor s.NextCodePoint (start + (chunks.length - 1) * ColumnChunkLength) q
        ∧ (chunks = [] ∧ l = 0 ∨ ∃ earlier chunk, chunks = earlier ++ [chunk] ∧ chunk.column = l) := by
  have hso := ho.le s.isSegmentation
  unfold endOfChunks
  rcases eq_nil_or_concat chunks with rfl | ⟨earlier, chunk, rfl⟩
  . refine ⟨start, 0, rfl, .nil start, hso, ?_, .inl ⟨rfl, rfl⟩⟩
    rw [length_nil, Nat.zero_sub, Nat.zero_mul]
    exact .self start
  have hlength := hchunks.length
  rw [concat_eq_append] at *
  rw [length_append, length_singleton] at hle hlength
  have hbound : start + earlier.length * ColumnChunkLength ≤ offset := by
    unfold ColumnChunkLength at *
    omega
  obtain ⟨q, l, hq, hfloor, hretract⟩ := RetractedOffsetOfChunk_eq hstart ho (by omega) hbound
  have hcolumn := (hchunks.chunk _ _ List.getElem?_concat_length).eq hq hfloor
  have hqo : q ≤ offset := hfloor.le.trans hbound
  rw [List.getLast?_concat]
  dsimp only
  rw [length_append, length_singleton, Nat.add_sub_cancel, hretract]
  exact ⟨q, chunk.column, rfl, hcolumn ▸ hq, hqo, hfloor, .inr ⟨earlier, chunk, rfl, rfl⟩⟩

end Column

-- What is known when the column of an offset of this line is looked up.
structure LineReady (s : SourceUnits e) (start : Nat) (line : UInt32) (c : TokenStreamAnyChars) : Prop where
  lineOf : c.lineOfLastColumnComputation = line
  vector : ∀ key, c.lastChunkVectorForLine = some key → key = line ∧ ∃ chunks, c.longLineColumnInfo line = some chunks
  chunks : ∀ chunks, c.longLineColumnInfo line = some chunks → ChunksHold s start chunks

structure Looked (s : SourceUnits e) (start : Nat) (line : UInt32) (offset n : Nat) (c c' : TokenStreamAnyChars)
    : Prop where
  ready : LineReady s start line c'
  srcCoords : c'.srcCoords = c.srcCoords
  others : ∀ l, l ≠ line → c'.longLineColumnInfo l = c.longLineColumnInfo l
  offset : c'.lastOffsetOfComputedColumn = offset
  column : c'.lastComputedColumn = n

section Line

variable {c : TokenStreamAnyChars} {line : UInt32} {chunks : List ChunkInfo} {memory : Memory}

theorem LineReady.looked (h : LineReady s start line c) (offset n : Nat)
    : Looked s start line offset n c { c with lastOffsetOfComputedColumn := offset, lastComputedColumn := n } where
  ready := ⟨h.lineOf, h.vector, h.chunks⟩
  srcCoords := rfl
  others := fun _ _ => rfl
  offset := rfl
  column := rfl

theorem LineReady.setLastChunkVector (h : LineReady s start line c) (hvector : c.lastChunkVectorForLine = some line)
    (hchunks : ChunksHold s start chunks) : LineReady s start line (c.setLastChunkVector chunks) where
  lineOf := h.lineOf
  vector := by
    intro key hkey
    refine ⟨(h.vector key hkey).1, chunks, ?_⟩
    exact if_pos hvector
  chunks := by
    intro chunks' hchunks'
    unfold TokenStreamAnyChars.setLastChunkVector at hchunks'
    dsimp only at hchunks'
    rw [if_pos hvector] at hchunks'
    cases hchunks'
    exact hchunks

theorem Looked.of_setLastChunkVector (hvector : c.lastChunkVectorForLine = some line)
    (h : Looked s start line offset n (c.setLastChunkVector chunks) c') : Looked s start line offset n c c' where
  ready := h.ready
  srcCoords := h.srcCoords
  others := by
    intro l hl
    rw [h.others l hl]
    refine if_neg ?_
    rw [hvector, Option.some_inj]
    exact fun heq => hl heq.symm
  offset := h.offset
  column := h.column

theorem columnInNewChunk_exact (h : LineReady s start line c) (hvector : c.lastChunkVectorForLine = some line)
    (hstart : s.startOffset ≤ start) (ho : s.CodePoints start offset n) (hchunks : ChunksHold s start chunks)
    (hle : chunks.length ≤ (offset - start) / ColumnChunkLength) (hpos : (offset - start) / ColumnChunkLength ≠ 0)
    (hlast : c.LastColumnHolds s start start offset)
    : ∃ c', c.columnInNewChunk s offset start ((offset - start) / ColumnChunkLength) memory chunks = some (n, c')
        ∧ Looked s start line offset n c c' := by
  have hseg := s.isSegmentation
  obtain ⟨q, l, hend, hq, hqo, hfloor, hlastChunk⟩ := endOfChunks_eq hstart ho hchunks hle
  have hcolumn (c' : TokenStreamAnyChars) (hc' : c'.lastOffsetOfComputedColumn = c.lastOffsetOfComputedColumn)
      (hc'' : c'.lastComputedColumn = c.lastComputedColumn) {p m : Nat} (hp : s.CodePoints start p m)
      (hpo : p ≤ offset) : c'.ColumnFromPartial s offset p m .PossiblyMultiUnit
        = some (n, { c' with lastOffsetOfComputedColumn := offset, lastComputedColumn := n }) := by
    apply ColumnFromPartial_eq _ hstart ho hp hpo UnitsType.noConfusion
    unfold LastColumnHolds
    rw [hc', hc'']
    intro hlt
    have := hp.le hseg
    exact hlast (by omega)
  unfold columnInNewChunk
  dsimp only
  rw [hend, some_bind]
  dsimp only
  split
  next =>
    obtain ⟨earlier, chunk, hcons, hchunk, hlen, hall⟩ : ∃ earlier chunk,
        (if chunks = [] then [⟨0, .PossiblyMultiUnit⟩] else chunks) = earlier ++ [chunk] ∧ chunk.column = l
        ∧ earlier.length = chunks.length - 1 ∧ ∀ j c, (earlier ++ [chunk])[j]? = some c → ChunkAt s start j c := by
      rcases hlastChunk with ⟨rfl, rfl⟩ | ⟨earlier, chunk, rfl, rfl⟩
      . refine ⟨[], ⟨0, .PossiblyMultiUnit⟩, rfl, rfl, rfl, ?_⟩
        intro j c hc
        rcases Lists.getElem?_concat_cases hc with ⟨hlt, -⟩ | ⟨rfl, rfl⟩
        . exact absurd hlt (Nat.not_lt_zero j)
        refine ⟨start, .nil start, ?_, UnitsType.noConfusion⟩
        rw [length_nil, Nat.zero_mul]
        exact .self start
      . refine ⟨earlier, chunk, if_neg (by simp), rfl, ?_, hchunks.chunk⟩
        rw [length_append, length_singleton, Nat.add_sub_cancel]
    have hlen' : (earlier ++ [chunk]).length = earlier.length + 1 := by
      rw [length_append, length_singleton]
    subst hchunk
    obtain ⟨q', l', chunks', hrun, hq', hqo', hchunks'⟩ := extendChunks_eq ((offset - start) / ColumnChunkLength + 1)
      hstart ho rfl (Nat.le_add_left _ _) (by omega) (by omega) rfl hall hq
      (by rw [Nat.add_sub_cancel, hlen]; exact hfloor)
    rw [hcons, hlen', hrun, some_bind]
    dsimp only
    rw [hcolumn (c.setLastChunkVector chunks') rfl rfl hq' hqo']
    exact ⟨_, rfl, .of_setLastChunkVector hvector ((h.setLastChunkVector hvector hchunks').looked offset n)⟩
  next =>
    rw [hcolumn c rfl rfl hq hqo]
    exact ⟨_, rfl, h.looked offset n⟩

theorem columnInLongLine_exact (memory : Memory) (h : LineReady s start line c)
    (hvector : c.lastChunkVectorForLine = some line) (hstart : s.startOffset ≤ start) (ho : s.CodePoints start offset n)
    (hpos : (offset - start) / ColumnChunkLength ≠ 0) (hlast : c.LastColumnHolds s start start offset)
    : ∃ c', c.columnInLongLine s offset start ((offset - start) / ColumnChunkLength) memory = some (n, c')
        ∧ Looked s start line offset n c c' := by
  obtain ⟨-, chunks, hchunks⟩ := h.vector line hvector
  have hholds := h.chunks chunks hchunks
  unfold columnInLongLine lastChunkVector
  rw [hvector, Option.bind_some, hchunks, some_bind]
  split
  next chunk hchunk =>
    obtain ⟨q, hretract, hcolumn⟩ := columnInKnownChunk_eq hstart ho rfl hpos (hholds.chunk _ _ hchunk) hlast
    dsimp only
    rw [hretract, some_bind, hcolumn]
    exact ⟨_, rfl, h.looked offset n⟩
  next hnone =>
    exact columnInNewChunk_exact h hvector hstart ho hholds (List.getElem?_eq_none_iff.mp hnone) hpos hlast

theorem columnInFirstChunk_exact (h : LineReady s start line c) (hstart : s.startOffset ≤ start)
    (ho : s.CodePoints start offset n) (hzero : (offset - start) / ColumnChunkLength = 0)
    (hlast : c.LastColumnHolds s start start offset)
    : ∃ c', c.ColumnFromPartial s offset start 0 c.unitsTypeOfFirstChunk = some (n, c')
        ∧ Looked s start line offset n c c' := by
  have hle := ho.le s.isSegmentation
  have hbound : offset < start + (0 + 1) * ColumnChunkLength := by
    unfold ColumnChunkLength at *
    omega
  refine ⟨_, ColumnFromPartial_eq _ hstart ho (.nil start) hle ?_ hlast, h.looked offset n⟩
  intro hsingle
  unfold unitsTypeOfFirstChunk lastChunkVector at hsingle
  split at hsingle
  next chunk chunks hvector =>
    obtain ⟨key, hkey, hchunks⟩ := Option.bind_eq_some_iff.mp hvector
    rw [(h.vector key hkey).1] at hchunks
    have hfloor : Floor s.NextCodePoint (start + 0 * ColumnChunkLength) start := by
      rw [Nat.zero_mul]
      exact .self start
    exact ((h.chunks _ hchunks).chunk 0 chunk rfl).units (.nil start) hfloor ho hle hbound hsingle
  next => cases hsingle

theorem lookupChunkVector_exact (h : LineReady s start line c) (hlookup : c.lookupChunkVector line memory = some c')
    : LineReady s start line c' ∧ c'.lastChunkVectorForLine = some line ∧ c'.srcCoords = c.srcCoords
        ∧ (∀ l, l ≠ line → c'.longLineColumnInfo l = c.longLineColumnInfo l)
        ∧ c'.lastOffsetOfComputedColumn = c.lastOffsetOfComputedColumn
        ∧ c'.lastComputedColumn = c.lastComputedColumn := by
  unfold lookupChunkVector at hlookup
  split at hlookup
  next key hkey =>
    cases hlookup
    exact ⟨h, (h.vector key hkey).1 ▸ hkey, rfl, fun _ _ => rfl, rfl, rfl⟩
  next =>
    split at hlookup
    next chunks hchunks =>
      cases hlookup
      refine ⟨⟨h.lineOf, ?_, h.chunks⟩, rfl, rfl, fun _ _ => rfl, rfl, rfl⟩
      intro key hkey
      cases hkey
      exact ⟨rfl, chunks, hchunks⟩
    next hnone =>
      split at hlookup
      next =>
        cases hlookup
        refine ⟨⟨h.lineOf, ?_, ?_⟩, rfl, rfl, ?_, rfl, rfl⟩
        . intro key hkey
          cases hkey
          exact ⟨rfl, [], if_pos rfl⟩
        . intro chunks hchunks
          unfold TokenStreamAnyChars.setLastChunkVector at hchunks
          dsimp only at hchunks
          rw [if_pos rfl] at hchunks
          cases hchunks
          exact .nil
        . intro l hl
          refine if_neg ?_
          rw [Option.some_inj]
          exact fun heq => hl heq.symm
      next => cases hlookup

end Line

def Uncomputed (c : TokenStreamAnyChars) : Prop :=
  c.lineOfLastColumnComputation = UINT32_MAX ∧ c.lastOffsetOfComputedColumn = MAX_PTR ∧ c.lastComputedColumn = 0

structure ColumnsHold (s : SourceUnits e) (starts : List Nat) (lineNumber : Nat → UInt32) (c : TokenStreamAnyChars)
    : Prop where
  chunks : ∀ i start chunks, starts[i]? = some start → c.longLineColumnInfo (lineNumber i) = some chunks →
    ChunksHold s start chunks
  vector : ∀ key, c.lastChunkVectorForLine = some key →
    key = c.lineOfLastColumnComputation ∧ ∃ chunks, c.longLineColumnInfo key = some chunks
  last : Uncomputed c ∨ ∃ i start, starts[i]? = some start ∧ c.lineOfLastColumnComputation = lineNumber i
    ∧ s.CodePoints start c.lastOffsetOfComputedColumn c.lastComputedColumn

section Compute

variable {c : TokenStreamAnyChars} {starts : List Nat} {lineNumber : Nat → UInt32} {i : Nat} {memory : Memory}

theorem ColumnsHold.new (lineno : UInt32) (scriptSourceOffset : Nat)
    : ColumnsHold s starts lineNumber (.new lineno scriptSourceOffset) where
  chunks := nofun
  vector := nofun
  last := .inl ⟨rfl, rfl, rfl⟩

theorem ColumnsHold.withCoords (h : ColumnsHold s starts lineNumber c) (coords : SourceCoords)
    : ColumnsHold s starts lineNumber { c with srcCoords := coords } :=
  ⟨h.chunks, h.vector, h.last⟩

theorem ColumnsHold.resetForLine (h : ColumnsHold s starts lineNumber c)
    (hinj : ∀ i j a b, starts[i]? = some a → starts[j]? = some b → lineNumber i = lineNumber j → i = j)
    (hi : starts[i]? = some start)
    (hfresh : Uncomputed c → lineNumber i = UINT32_MAX → start < MAX_PTR → offset < MAX_PTR)
    : LineReady s start (lineNumber i) (c.resetForLine (lineNumber i) start)
        ∧ (c.resetForLine (lineNumber i) start).LastColumnHolds s start start offset
        ∧ (c.resetForLine (lineNumber i) start).srcCoords = c.srcCoords
        ∧ (c.resetForLine (lineNumber i) start).longLineColumnInfo = c.longLineColumnInfo := by
  unfold TokenStreamAnyChars.resetForLine
  split
  next heq =>
    refine ⟨⟨heq.symm, ?_, fun chunks => h.chunks i start chunks hi⟩, ?_, rfl, rfl⟩
    . intro key hkey
      obtain ⟨rfl, hchunks⟩ := h.vector key hkey
      exact ⟨heq.symm, heq ▸ hchunks⟩
    intro hlt hle
    rcases h.last with huncomputed | ⟨j, start', hj, hline, hcount⟩
    . have := hfresh huncomputed (heq.trans huncomputed.1) (huncomputed.2.1 ▸ hlt)
      rw [huncomputed.2.1] at hle
      omega
    obtain rfl := hinj i j start start' hi hj (heq.trans hline)
    rw [hi, Option.some_inj] at hj
    rw [hj]
    exact hcount
  next =>
    refine ⟨⟨rfl, nofun, fun chunks => h.chunks i start chunks hi⟩, ?_, rfl, rfl⟩
    intro hlt
    exact absurd hlt (Nat.lt_irrefl _)

theorem Looked.columnsHold (hlooked : Looked s start (lineNumber i) offset n c' c'')
    (h : ColumnsHold s starts lineNumber c)
    (heq : ∀ l, l ≠ lineNumber i → c'.longLineColumnInfo l = c.longLineColumnInfo l)
    (hinj : ∀ i j a b, starts[i]? = some a → starts[j]? = some b → lineNumber i = lineNumber j → i = j)
    (hi : starts[i]? = some start) (ho : s.CodePoints start offset n) : ColumnsHold s starts lineNumber c'' where
  chunks := by
    intro j start' chunks hj hchunks
    by_cases hline : lineNumber j = lineNumber i
    . obtain rfl := hinj j i start' start hj hi hline
      rw [hi, Option.some_inj] at hj
      rw [← hj]
      exact hlooked.ready.chunks chunks hchunks
    . rw [hlooked.others _ hline, heq _ hline] at hchunks
      exact h.chunks j start' chunks hj hchunks
  vector := by
    intro key hkey
    obtain ⟨rfl, hchunks⟩ := hlooked.ready.vector key hkey
    exact ⟨hlooked.ready.lineOf.symm, hchunks⟩
  last := by
    right
    refine ⟨i, start, hi, hlooked.ready.lineOf, ?_⟩
    rw [hlooked.offset, hlooked.column]
    exact ho

theorem computePartialColumn_exact (memory : Memory) (h : ColumnsHold s starts lineNumber c)
    (hinj : ∀ i j a b, starts[i]? = some a → starts[j]? = some b → lineNumber i = lineNumber j → i = j)
    (hi : starts[i]? = some start) (hline : c.srcCoords.lineNumberFromIndex i = lineNumber i)
    (hget : c.srcCoords.lineStart i = some start) (hstart : s.startOffset ≤ start) (ho : s.CodePoints start offset n)
    (hfresh : Uncomputed c → lineNumber i = UINT32_MAX → start < MAX_PTR → offset < MAX_PTR)
    : ∃ c', c.computePartialColumn s i offset memory = some (n, c') ∧ ColumnsHold s starts lineNumber c'
        ∧ c'.srcCoords = c.srcCoords := by
  obtain ⟨hready, hlast, hcoords, hinfo⟩ := h.resetForLine hinj hi hfresh
  have hle := ho.le s.isSegmentation
  unfold computePartialColumn
  dsimp only
  rw [hline, hget, some_bind]
  split
  next hzero =>
    obtain ⟨c', hrun, hlooked⟩ := columnInFirstChunk_exact hready hstart ho hzero hlast
    rw [hrun]
    exact ⟨c', rfl, hlooked.columnsHold h (fun l _ => congrFun hinfo l) hinj hi ho, hlooked.srcCoords.trans hcoords⟩
  next hpos =>
    split
    next c₁ hlookup =>
      obtain ⟨hready₁, hvector, hcoords₁, hothers, hoffset, hcolumn⟩ := lookupChunkVector_exact hready hlookup
      unfold LastColumnHolds at hlast
      rw [← hoffset, ← hcolumn] at hlast
      obtain ⟨c', hrun, hlooked⟩ := columnInLongLine_exact memory hready₁ hvector hstart ho hpos hlast
      refine ⟨c', hrun, hlooked.columnsHold h ?_ hinj hi ho, (hlooked.srcCoords.trans hcoords₁).trans hcoords⟩
      intro l hl
      exact (hothers l hl).trans (congrFun hinfo l)
    next =>
      have hcolumn := ColumnFromPartial_eq .PossiblyMultiUnit hstart ho (.nil start) hle UnitsType.noConfusion hlast
      have hlooked := hready.looked offset n
      exact ⟨_, hcolumn, hlooked.columnsHold h (fun l _ => congrFun hinfo l) hinj hi ho, hcoords⟩

end Compute

end TokenStreamAnyChars

end SpiderMonkey.Frontend
