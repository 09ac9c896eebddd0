import SpiderMonkey.Lib.Overwrite
import SpiderMonkey.Wasm.Impl.VarInt

/-!
This module contains how the decoder of wasm modules finds sections, and records the custom ones that it passes. There
is no result when a byte outside of the range of the decoder is read or skipped, or when a loop does not end. The offset
in the text of an error is left out, and memory suffices.
-/

namespace SpiderMonkey.Wasm

open ByteStream
open Overwrite

inductive SectionId where
  | Custom
  | «Type»
  | Import
  | Function
  | Table
  | Memory
  | Global
  | Export
  | Start
  | Elem
  | Code
  | Data
  | DataCount
  | GcFeatureOptIn
deriving DecidableEq

def SectionId.toByte : SectionId → BitVec 8
  | Custom => 0
  | «Type» => 1
  | Import => 2
  | Function => 3
  | Table => 4
  | Memory => 5
  | Global => 6
  | Export => 7
  | Start => 8
  | Elem => 9
  | Code => 10
  | Data => 11
  | DataCount => 12
  | GcFeatureOptIn => 42

structure SectionRange where
  start : Nat
  size : Nat
deriving DecidableEq

structure CustomSectionEnv where
  nameOffset : Nat
  nameLength : Nat
  payloadOffset : Nat
  payloadLength : Nat
deriving DecidableEq

abbrev CustomSectionEnvVector := List CustomSectionEnv

inductive Warning where
  | error (name error : String)
  | unconsumed (name : String) (bytes : Nat)
  | consumedPastTheEnd (name : String) (bytes : Nat)

structure Decoder where
  cur : Cursor
  offsetInModule : Nat
  error : Option String
  warnings : List Warning
  resilientMode : Bool

namespace Decoder

def toUint32 (n : Nat) : Nat := n % 2 ^ 32

def sizeSub (a b : Nat) : Nat := (2 ^ 64 + a - b) % 2 ^ 64

def bytesRemain (d : Decoder) : Nat := d.cur.stop - d.cur.pos

def done (d : Decoder) : Bool := d.cur.pos = d.cur.stop

def currentOffset (d : Decoder) : Nat := d.offsetInModule + d.cur.pos

def rollbackPosition (pos : Nat) (d : Decoder) : Decoder := { d with cur := { d.cur with pos := pos } }

def clearError (d : Decoder) : Decoder := { d with error := none }

def warnf (warning : Warning) (d : Decoder) : Decoder := { d with warnings := d.warnings ++ [warning] }

abbrev Outcome (α : Type) := Option (Except String α)

def fail {α : Type} (msg : String) : Outcome α := some (.error msg)

def read {α : Type} (reader : Reader α) (d : Decoder) : Option (α × Decoder) :=
  (reader d.cur).map fun r => (r.1, { d with cur := r.2 })

def bytes (n : Nat) (d : Decoder) : Option (List (BitVec 8)) :=
  if d.cur.pos + n ≤ d.cur.stop then some (slice d.cur.data d.cur.pos n) else none

def advance (n : Nat) (d : Decoder) : Option Decoder :=
  if d.cur.pos + n ≤ d.cur.stop then some (d.rollbackPosition (d.cur.pos + n)) else none

def startSectionFrom (skipCustomSection : CustomSectionEnvVector → Decoder → Outcome (CustomSectionEnvVector × Decoder))
    (id : SectionId) : (rounds : Nat) → CustomSectionEnvVector → Decoder → Outcome (Bool × CustomSectionEnvVector × Decoder)
  | 0, _, _ => none
  | rounds + 1, env, d =>
    match d.read readFixedU8 with
    | none => some (.ok (false, env, d))
    | some (idValue, d') =>
      if idValue = id.toByte then some (.ok (true, env, d'))
      else if idValue ≠ SectionId.Custom.toByte then some (.ok (false, env, d'))
      else
        match skipCustomSection env d with
        | none => none
        | some (.error msg) => some (.error msg)
        | some (.ok (env, d)) => startSectionFrom skipCustomSection id rounds env d

-- Each round takes a byte at least.
def startSectionWith (skipCustomSection : CustomSectionEnvVector → Decoder → Outcome (CustomSectionEnvVector × Decoder))
    (id : SectionId) (sectionName : String) (env : CustomSectionEnvVector) (d : Decoder)
    : Outcome (Option SectionRange × CustomSectionEnvVector × Decoder) :=
  let initialCur := d.cur.pos
  let initialCustomSectionsLength := env.length
  match startSectionFrom skipCustomSection id (d.bytesRemain + 1) env d with
  | none => none
  | some (.error msg) => some (.error msg)
  | some (.ok (false, env, d)) =>
    some (.ok (none, env.take initialCustomSectionsLength, d.rollbackPosition initialCur))
  | some (.ok (true, env, d)) =>
    match d.read (readVarU .bits32) with
    | none => fail ("failed to start " ++ sectionName ++ " section")
    | some (size, d) => some (.ok (some ⟨toUint32 d.currentOffset, size.toNat⟩, env, d))

def finishSection (range : SectionRange) (sectionName : String) (d : Decoder) : Except String Unit :=
  if d.resilientMode then .ok ()
  else if range.size ≠ sizeSub d.currentOffset range.start then
    .error ("byte size mismatch in " ++ sectionName ++ " section")
  else .ok ()

def skipAndFinishCustomSection (range : SectionRange) (d : Decoder) : Option Decoder :=
  let cur := sizeSub range.start d.offsetInModule + range.size
  if cur ≤ d.cur.stop then some (d.rollbackPosition cur).clearError else none

def startAnyCustomSection : CustomSectionEnvVector → Decoder → Outcome (Option SectionRange × CustomSectionEnvVector × Decoder) :=
  startSectionWith (fun _ _ => none) .Custom "custom"

def startCustomSectionFrom (expected : Option (List (BitVec 8)))
    : (rounds : Nat) → CustomSectionEnvVector → Decoder → Outcome (Option SectionRange × CustomSectionEnvVector × Decoder)
  | 0, _, _ => none
  | rounds + 1, env, d =>
    match startAnyCustomSection env d with
    | none => none
    | some (.error msg) => some (.error msg)
    | some (.ok (none, env, d)) => some (.ok (none, env, d))
    | some (.ok (some range, env, d)) =>
      if d.bytesRemain < range.size then fail "failed to start custom section"
      else
        match d.read (readVarU .bits32) with
        | none => fail "failed to start custom section"
        | some (nameLength, d) =>
          if nameLength.toNat > d.bytesRemain then fail "failed to start custom section"
          else
            let nameOffset := toUint32 d.currentOffset
            let payloadOffset := toUint32 (nameOffset + nameLength.toNat)
            let payloadEnd := toUint32 (range.start + range.size)
            if payloadOffset > payloadEnd then fail "failed to start custom section"
            else
              let sec := ⟨nameOffset, nameLength.toNat, payloadOffset, payloadEnd - payloadOffset⟩
              let env := env ++ [sec]
              match d.bytes nameLength.toNat, d.advance nameLength.toNat with
              | some name, some advanced =>
                if expected.all fun expected => expected = name then some (.ok (some range, env, advanced))
                else
                  match d.skipAndFinishCustomSection range with
                  | none => none
                  | some d => startCustomSectionFrom expected rounds env d
              | _, _ => none

def startCustomSection (expected : Option (List (BitVec 8))) (env : CustomSectionEnvVector) (d : Decoder)
    : Outcome (Option SectionRange × CustomSectionEnvVector × Decoder) :=
  let initialCur := d.cur.pos
  let initialCustomSectionsLength := env.length
  match startCustomSectionFrom expected (d.bytesRemain + 1) env d with
  | none => none
  | some (.error msg) => some (.error msg)
  | some (.ok (none, env, d)) =>
    some (.ok (none, env.take initialCustomSectionsLength, d.rollbackPosition initialCur))
  | some (.ok (some range, env, d)) => some (.ok (some range, env, d))

def finishCustomSection (name : String) (range : SectionRange) (d : Decoder) : Option Decoder :=
  match d.error with
  | some error => (d.warnf (.error name error)).skipAndFinishCustomSection range
  | none =>
    let actualSize := toUint32 (sizeSub d.currentOffset range.start)
    if range.size ≠ actualSize then
      let warning :=
        if actualSize < range.size then .unconsumed name (range.size - actualSize)
        else .consumedPastTheEnd name (actualSize - range.size)
      (d.warnf warning).skipAndFinishCustomSection range
    else some d

def skipCustomSection (env : CustomSectionEnvVector) (d : Decoder) : Outcome (CustomSectionEnvVector × Decoder) :=
  match startCustomSection none env d with
  | none => none
  | some (.error msg) => some (.error msg)
  | some (.ok (none, _, _)) => fail "expected custom section"
  | some (.ok (some range, env, d)) => (d.skipAndFinishCustomSection range).map fun d => .ok (env, d)

def startSection
    : SectionId → String → CustomSectionEnvVector → Decoder → Outcome (Option SectionRange × CustomSectionEnvVector × Decoder) :=
  startSectionWith skipCustomSection

end Decoder

open Decoder

-- What decodes the contents of a section: it tells how far it has read, or fails with an error.
structure SectionBody where
  run : Decoder → Except String Nat
  inBounds : ∀ d pos, run d = .ok pos → pos ≤ d.cur.stop

def decodeSection (id : SectionId) (sectionName : String) (body : SectionBody) (env : CustomSectionEnvVector) (d : Decoder)
    : Outcome (CustomSectionEnvVector × Decoder) :=
  match d.startSection id sectionName env with
  | none => none
  | some (.error msg) => some (.error msg)
  | some (.ok (none, env, d)) => some (.ok (env, d))
  | some (.ok (some range, env, d)) =>
    match body.run d with
    | .error msg => some (.error msg)
    | .ok pos =>
      let d := d.rollbackPosition pos
      match d.finishSection range sectionName with
      | .error msg => some (.error msg)
      | .ok () => some (.ok (env, d))

-- What decodes the contents of a custom section: it tells how far it has read, and may report an error, which does not
-- make the module invalid.
structure CustomSectionBody where
  run : Decoder → Nat × Option String
  inBounds : ∀ d, (run d).1 ≤ d.cur.stop

def decodeCustomSection (sectionName : String) (expected : List (BitVec 8)) (body : CustomSectionBody)
    (env : CustomSectionEnvVector) (d : Decoder) : Outcome (CustomSectionEnvVector × Decoder) :=
  match d.startCustomSection (some expected) env with
  | none => none
  | some (.error msg) => some (.error msg)
  | some (.ok (none, env, d)) => some (.ok (env, d))
  | some (.ok (some range, env, d)) =>
    let (pos, error) := body.run d
    (finishCustomSection sectionName range { d.rollbackPosition pos with error := error }).map fun d => .ok (env, d)

def skipCustomSections : (rounds : Nat) → CustomSectionEnvVector → Decoder → Outcome (CustomSectionEnvVector × Decoder)
  | 0, _, _ => none
  | rounds + 1, env, d =>
    if d.done then some (.ok (env, d))
    else
      match d.skipCustomSection env with
      | none => none
      | some (.error msg) => if d.resilientMode then some (.ok (env, d)) else some (.error msg)
      | some (.ok (env, d)) => skipCustomSections rounds env d

inductive DecodeStep where
  | section (id : SectionId) (known : id ≠ .Custom) (sectionName : String) (body : SectionBody)
  | customSection (sectionName : String) (expected : List (BitVec 8)) (body : CustomSectionBody)

def DecodeStep.run : DecodeStep → CustomSectionEnvVector → Decoder → Outcome (CustomSectionEnvVector × Decoder)
  | «section» id _ sectionName body => decodeSection id sectionName body
  | customSection sectionName expected body => decodeCustomSection sectionName expected body

def decodeSections : List DecodeStep → CustomSectionEnvVector → Decoder → Outcome (CustomSectionEnvVector × Decoder)
  | [], env, d => skipCustomSections (d.bytesRemain + 1) env d
  | step :: steps, env, d =>
    match step.run env d with
    | none => none
    | some (.error msg) => some (.error msg)
    | some (.ok (env, d)) => decodeSections steps env d

end SpiderMonkey.Wasm
