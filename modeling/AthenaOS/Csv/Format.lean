import AthenaOS.Lib.Scan
import AthenaOS.Lib.Utf8

/-!
# CSV tables as text

`components/ath_csv/src/lib.rs`: the RFC 4180 reader and writer.
-/

namespace AthenaOS

/-- A table: rows of cells. -/
structure Csv where
  rows : List (List String)
  deriving DecidableEq

namespace Csv

open Lib.Wire

/-- `MAX_CELL_BYTES`. -/
def maxCellBytes : Nat := 16 * 1024 * 1024

/-- `MAX_ROWS`. -/
def maxRows : Nat := 4 * 1024 * 1024

/-- `MAX_COLS`. -/
def maxCols : Nat := 64 * 1024

inductive CsvError where
  | cellTooLarge | tooManyRows | tooManyCols | badDelimiter
  deriving DecidableEq

def comma : Char := ','

def quote : UInt8 := 0x22

def cr : UInt8 := 0x0D

def lf : UInt8 := 0x0A

/-- The test on the delimiter, the same in the reader and the writer. -/
def isDelimiter (delimiter : Char) : Bool :=
  delimiter.toNat < 128 && delimiter != '"' && delimiter != '\r' && delimiter != '\n'

/-- `delimiter as u8`. -/
def delimByte (delimiter : Char) : UInt8 := UInt8.ofNat delimiter.toNat

/-! ## The reader -/

/-- The variables of the loop. -/
structure Reader where
  rows : List (List String)
  record : List String
  fieldBytes : ByteString
  fieldInProgress : Bool
  recordStarted : Bool

/-- `push_field!`. -/
def Reader.pushField (r : Reader) : Except CsvError Reader :=
  if r.fieldBytes.length > maxCellBytes then .error .cellTooLarge
  else if r.record.length ≥ maxCols then .error .tooManyCols
  else .ok { r with
    record := r.record ++ [(ofUtf8? r.fieldBytes).getD ""]
    fieldBytes := [] }

/-- `field_bytes.push(b)`, under the limit. -/
def pushByte (field : ByteString) (b : UInt8) : Except CsvError ByteString :=
  if field.length ≥ maxCellBytes then .error .cellTooLarge else .ok (field ++ [b])

/-- Up to the closing quote, or to the end of the text. -/
def quoted : ByteString → ByteString → Except CsvError (ByteString × ByteString)
  | [], field => .ok ([], field)
  | [c], field =>
    if c = quote then .ok ([], field)
    else
      match pushByte field c with
      | .error e => .error e
      | .ok field => .ok ([], field)
  | c :: c' :: rest, field =>
    if c = quote then
      if c' = quote then
        match pushByte field quote with
        | .error e => .error e
        | .ok field => quoted rest field
      else .ok (c' :: rest, field)
    else
      match pushByte field c with
      | .error e => .error e
      | .ok field => quoted (c' :: rest) field

/-- What follows the closing quote, up to a delimiter or the end of the line. -/
def trailing (delim : UInt8) : ByteString → ByteString → Except CsvError (ByteString × ByteString)
  | [], field => .ok ([], field)
  | b :: rest, field =>
    if b ≠ delim ∧ b ≠ cr ∧ b ≠ lf then
      match pushByte field b with
      | .error e => .error e
      | .ok field => trailing delim rest field
    else .ok (b :: rest, field)

/-- After the first byte of a line end: CR LF is one. -/
def skipLf (b : UInt8) : ByteString → ByteString
  | [] => []
  | c :: rest => if b = cr ∧ c = lf then rest else c :: rest

/-- One round of the loop, at the byte `b`. -/
def step (delim b : UInt8) (rest : ByteString) (r : Reader) : Except CsvError (ByteString × Reader) := do
  if b = quote ∧ r.fieldInProgress = false then
    let (rest, field) ← quoted rest r.fieldBytes
    let (rest, field) ← trailing delim rest field
    return (rest, { r with recordStarted := true, fieldInProgress := true, fieldBytes := field })
  else if b = delim then
    let r ← Reader.pushField { r with recordStarted := true }
    return (rest, { r with fieldInProgress := false })
  else if b = cr ∨ b = lf then
    let r ← r.pushField
    if r.rows.length ≥ maxRows then throw .tooManyRows
    return (skipLf b rest, { r with
      rows := r.rows ++ [r.record]
      record := []
      recordStarted := false
      fieldInProgress := false })
  else
    let field ← pushByte r.fieldBytes b
    return (rest, { r with recordStarted := true, fieldInProgress := true, fieldBytes := field })

/-- A last record without a line end. -/
def Reader.finish (r : Reader) : Except CsvError Csv := do
  if r.recordStarted ∨ r.record ≠ [] ∨ r.fieldBytes ≠ [] then
    let r ← r.pushField
    if r.rows.length ≥ maxRows then throw .tooManyRows
    return ⟨r.rows ++ [r.record]⟩
  else return ⟨r.rows⟩

/-- Before the first field of a record. -/
def Reader.start (rows : List (List String)) : Reader := ⟨rows, [], [], false, false⟩

/-- `parse_with`. -/
def parseWith (input : String) (delimiter : Char) : Except CsvError Csv := do
  if !isDelimiter delimiter then throw .badDelimiter
  let r ← scan (step (delimByte delimiter)) (utf8 input) (.start [])
  r.finish

/-! ## The writer -/

/-- `write_field`. -/
def writeField (field : String) (delim : Char) : String :=
  let needsQuote := (utf8 field).any fun b => b == quote || b == cr || b == lf || b == delimByte delim
  if !needsQuote then field
  else "\"" ++ String.ofList (field.toList.flatMap fun c => if c = '"' then ['"', '"'] else [c]) ++ "\""

/-- The fields of a row; `first` while no field has been written. -/
def writeRow (delim : Char) : Bool → List String → String
  | _, [] => ""
  | first, field :: fields =>
    (if first then "" else String.singleton delim) ++ writeField field delim ++ writeRow delim false fields

def writeRows (delim : Char) : List (List String) → String
  | [] => ""
  | row :: rows => writeRow delim true row ++ "\n" ++ writeRows delim rows

/-- `to_string_with`. -/
def toStringWith (csv : Csv) (delimiter : Char) : String :=
  let delim := if isDelimiter delimiter then delimiter else comma
  writeRows delim csv.rows

end Csv

end AthenaOS
