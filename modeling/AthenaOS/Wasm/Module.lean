import AthenaOS.Lib.Utf8

/-!
# WebAssembly modules

The decoder of `athwasm`: LEB128 integers, the section walker, and the decoders of the
sections the interpreter reads. A malformed module is rejected (`None`).
-/

namespace AthenaOS.Wasm

open Lib Lib.Wire

/-- `WASM_MAGIC` and `WASM_VERSION`. -/
def wasmMagic : ByteString := [0x00, 0x61, 0x73, 0x6d]
def wasmVersion : Nat := 1

/-- `WasmError`, as far as `parse` returns it. -/
inductive WasmError where
  | tooShort
  | badMagic
  | badVersion
  | truncated
  | badLeb128
  | badSectionId
  deriving DecidableEq, Repr

/-! ## Reading -/

/-- A decoder that moves a position and gives up at the first malformed byte. -/
abbrev Scan (α : Type) : Type := StateT Nat Option α

namespace Scan

/-- `?` on an option. -/
def ofOption {α : Type} (o : Option α) : Scan α := fun pos => o.map fun a => (a, pos)

/-- `*body.get(pos)?`, then `pos += 1`. -/
def byte (body : ByteString) : Scan UInt8 := fun pos => body[pos]?.map fun b => (b, pos + 1)

/-- `body.get(pos..pos + n)?`, then `pos += n`. -/
def take (body : ByteString) (n : Nat) : Scan ByteString := fun pos =>
  if pos + n ≤ body.length then some (slice body pos n, pos + n) else none

/-- `for _ in 0..n { out.push(item?) }`. -/
def times {α : Type} (item : Scan α) : Nat → Scan (List α)
  | 0 => pure []
  | n + 1 => do
    let a ← item
    let as ← times item n
    pure (a :: as)

end Scan

/-- The loop of `read_uleb`, over the bytes from `pos` on. -/
def ulebLoop (bits : Nat) : ByteString → Nat → Nat → Nat → Option (Nat × Nat)
  | [], _, _, _ => none
  | byte :: rest, pos, shift, result =>
    if bits ≤ shift then none
    else
      let result := result ||| ((byte.toNat &&& 0x7F) <<< shift) % 2 ^ 64
      if byte.toNat &&& 0x80 = 0 then some (result, pos + 1)
      else ulebLoop bits rest (pos + 1) (shift + 7) result

/-- `read_uleb`. -/
def readUleb (bytes : ByteString) (bits : Nat) : Scan Nat := fun pos =>
  ulebLoop bits (bytes.drop pos) pos 0 0

/-- The loop of `read_sleb`. -/
def slebLoop (bits : Nat) : ByteString → Nat → Nat → BitVec 64 → Option (BitVec 64 × Nat)
  | [], _, _, _ => none
  | byte :: rest, pos, shift, result =>
    if bits ≤ shift then none
    else
      let result := result ||| BitVec.ofNat 64 (byte.toNat &&& 0x7F) <<< shift
      let shift := shift + 7
      if byte.toNat &&& 0x80 = 0 then
        if shift < 64 ∧ byte.toNat &&& 0x40 ≠ 0 then some (result ||| (-1#64) <<< shift, pos + 1)
        else some (result, pos + 1)
      else slebLoop bits rest (pos + 1) shift result

/-- `read_sleb`. -/
def readSleb (bytes : ByteString) (bits : Nat) : Scan (BitVec 64) := fun pos =>
  slebLoop bits (bytes.drop pos) pos 0 0

/-! ## Sections -/

/-- `Section`. -/
structure Section where
  id : Nat
  body : ByteString

/-- `section_id`. -/
def sectionType : Nat := 1
def sectionImport : Nat := 2
def sectionFunction : Nat := 3
def sectionMemory : Nat := 5
def sectionExport : Nat := 7
def sectionCode : Nat := 10
def sectionMax : Nat := 12

/-- The section loop of `parse`, from `pos` on; every round moves on by at least two bytes. -/
def parseSections (bytes : ByteString) : Nat → Nat → Except WasmError (List Section)
  | 0, _ => .ok []
  | rounds + 1, pos =>
    match bytes[pos]? with
    | none => .ok []
    | some id =>
      if sectionMax < id.toNat then .error .badSectionId
      else
        match readUleb bytes 32 (pos + 1) with
        | none => .error .badLeb128
        | some (size, pos) =>
          if bytes.length < pos + size then .error .truncated
          else (parseSections bytes rounds (pos + size)).map (⟨id.toNat, slice bytes pos size⟩ :: ·)

/-- `parse`: the sections of a module. -/
def parse (bytes : ByteString) : Except WasmError (List Section) :=
  if bytes.length < 8 then .error .tooShort
  else if bytes.take 4 ≠ wasmMagic then .error .badMagic
  else if leNat (slice bytes 4 4) ≠ wasmVersion then .error .badVersion
  else parseSections bytes bytes.length 8

/-- `Module::section`. -/
def findSection (sections : List Section) (id : Nat) : Option Section :=
  sections.find? fun s => s.id = id

/-! ## Section decoders -/

/-- `ValType`. -/
inductive ValType where
  | i32
  | i64
  | f32
  | f64
  deriving DecidableEq, Repr

/-- `ValType::from_byte`. -/
def ValType.fromByte (b : UInt8) : Option ValType :=
  match b.toNat with
  | 0x7F => some .i32
  | 0x7E => some .i64
  | 0x7D => some .f32
  | 0x7C => some .f64
  | _ => none

/-- `FuncType`. -/
structure FuncType where
  params : List ValType
  results : List ValType
  deriving DecidableEq

/-- A vector: its length, then its items. -/
def decodeVec {α : Type} (body : ByteString) (item : Scan α) : Scan (List α) := do
  let n ← readUleb body 32
  Scan.times item n

/-- One `ValType` byte. -/
def decodeValType (body : ByteString) : Scan ValType := do
  let b ← Scan.byte body
  Scan.ofOption (ValType.fromByte b)

/-- `decode_valtypes`. -/
def decodeValtypes (body : ByteString) : Scan (List ValType) := decodeVec body (decodeValType body)

/-- `read_uleb(.., 32)? as u32`. -/
def readU32 (body : ByteString) : Scan Nat := do
  let n ← readUleb body 32
  pure (n % 2 ^ 32)

/-- A length-prefixed UTF-8 name. -/
def decodeName (body : ByteString) : Scan String := do
  let len ← readUleb body 32
  let bytes ← Scan.take body len
  Scan.ofOption (ofUtf8? bytes)

/-- `decode_type_section`. -/
def decodeTypeSection (body : ByteString) : Scan (List FuncType) := decodeVec body do
  let tag ← Scan.byte body
  if tag ≠ 0x60 then Scan.ofOption none
  else do
    let params ← decodeValtypes body
    let results ← decodeValtypes body
    pure ⟨params, results⟩

/-- `decode_function_section`. -/
def decodeFunctionSection (body : ByteString) : Scan (List Nat) := decodeVec body (readU32 body)

/-- `ExportKind`. -/
inductive ExportKind where
  | func
  | table
  | memory
  | global
  deriving DecidableEq

/-- `Export`. -/
structure Export where
  name : String
  kind : ExportKind
  index : Nat
  deriving DecidableEq

/-- The kind byte of an export. -/
def ExportKind.fromByte (b : UInt8) : Option ExportKind :=
  match b.toNat with
  | 0x00 => some .func
  | 0x01 => some .table
  | 0x02 => some .memory
  | 0x03 => some .global
  | _ => none

/-- `decode_export_section`. -/
def decodeExportSection (body : ByteString) : Scan (List Export) := decodeVec body do
  let name ← decodeName body
  let kindByte ← Scan.byte body
  let kind ← Scan.ofOption (ExportKind.fromByte kindByte)
  let index ← readU32 body
  pure ⟨name, kind, index⟩

/-- `FuncBody`. -/
structure FuncBody where
  locals : List (Nat × ValType)
  code : ByteString
  deriving DecidableEq

/-- One `(count, type)` group of locals. -/
def decodeLocalGroup (entry : ByteString) : Scan (Nat × ValType) := do
  let count ← readU32 entry
  let vt ← decodeValType entry
  pure (count, vt)

/-- One entry of the code section. -/
def decodeFuncBody (entry : ByteString) : Option FuncBody :=
  (decodeVec entry (decodeLocalGroup entry) 0).map fun (locals, lp) => ⟨locals, entry.drop lp⟩

/-- `decode_code_section`. -/
def decodeCodeSection (body : ByteString) : Scan (List FuncBody) := decodeVec body do
  let size ← readUleb body 32
  let entry ← Scan.take body size
  Scan.ofOption (decodeFuncBody entry)

/-- `(min, max)` limits after their flag byte. -/
def decodeLimits (body : ByteString) : Scan (Nat × Option Nat) := do
  let flags ← Scan.byte body
  let min ← readU32 body
  if flags.toNat &&& 1 ≠ 0 then do
    let max ← readU32 body
    pure (min, some max)
  else pure (min, none)

/-- `decode_memory_section`. -/
def decodeMemorySection (body : ByteString) : Scan (List (Nat × Option Nat)) :=
  decodeVec body (decodeLimits body)

/-- `ImportFunc`. -/
structure ImportFunc where
  module : String
  name : String
  typeIndex : Nat
  deriving DecidableEq

/-- What follows the names of an import; only functions are kept. -/
def decodeImportKind (body : ByteString) (module name : String) (kind : UInt8) :
    Scan (Option ImportFunc) :=
  match kind.toNat with
  | 0x00 => do
    let typeIndex ← readU32 body
    pure (some ⟨module, name, typeIndex⟩)
  | 0x01 => do
    let _elem ← Scan.byte body
    let _limits ← decodeLimits body
    pure none
  | 0x02 => do
    let _limits ← decodeLimits body
    pure none
  | 0x03 => do
    let _type ← Scan.take body 2
    pure none
  | _ => Scan.ofOption none

/-- `decode_import_section`. -/
def decodeImportSection (body : ByteString) : Scan (List ImportFunc) := do
  let imports ← decodeVec body do
    let module ← decodeName body
    let name ← decodeName body
    let kind ← Scan.byte body
    decodeImportKind body module name kind
  pure (imports.filterMap id)

/-! ## Instances -/

/-- `MAX_PAGES_CAP`. -/
def maxPagesCap : Nat := 1024

/-- `Instance`. -/
structure Instance where
  types : List FuncType
  imports : List ImportFunc
  funcTypes : List Nat
  codes : List FuncBody
  exports : List Export
  initPages : Nat
  maxPages : Nat
  deriving DecidableEq

/-- A section's table: empty where the section is absent. -/
def sectionTable {α : Type} (sections : List Section) (id : Nat) (decode : ByteString → Scan (List α)) :
    Option (List α) :=
  match findSection sections id with
  | some s => (decode s.body 0).map (·.1)
  | none => some []

/-- The limits of the first memory. -/
def memoryLimits (sections : List Section) : Option (Nat × Nat) :=
  match findSection sections sectionMemory with
  | some s => do
    let (memories, _) ← decodeMemorySection s.body 0
    let (min, max) ← memories.head?
    pure (min, max.getD maxPagesCap)
  | none => some (0, maxPagesCap)

/-- `instantiate`. -/
def instantiate (moduleBytes : ByteString) : Option Instance := do
  let sections ← (parse moduleBytes).toOption
  let types ← sectionTable sections sectionType decodeTypeSection
  let imports ← sectionTable sections sectionImport decodeImportSection
  let funcTypes ← sectionTable sections sectionFunction decodeFunctionSection
  let exports ← sectionTable sections sectionExport decodeExportSection
  let codes ← sectionTable sections sectionCode decodeCodeSection
  if funcTypes.length ≠ codes.length then none
  else do
    let (initPages, maxPages) ← memoryLimits sections
    pure ⟨types, imports, funcTypes, codes, exports, initPages, maxPages⟩

end AthenaOS.Wasm
