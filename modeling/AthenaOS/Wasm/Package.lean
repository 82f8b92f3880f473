import AthenaOS.Wasm.Sandbox

/-!
# WebAssembly packages

`athwasm::pkg`: a capability manifest and a module in one container. The loader runs the
module so that an import is serviced only if the manifest declares it and the embedder
granted its capability.
-/

namespace AthenaOS.Wasm

open Lib Lib.Wire Lib.Fallible

/-- `PKG_MAGIC`: `RWASMPK1`. -/
def pkgMagic : ByteString := [0x52, 0x57, 0x41, 0x53, 0x4D, 0x50, 0x4B, 0x31]

/-- `CapGrant`. -/
structure CapGrant where
  importModule : String
  importName : String
  cap : Nat
  deriving DecidableEq

/-- `WasmManifest`. -/
structure WasmManifest where
  name : String
  version : Nat
  grants : List CapGrant

/-- `grant_for`. -/
def WasmManifest.grantFor (manifest : WasmManifest) (module name : String) : Option CapGrant :=
  manifest.grants.find? fun g => g.importModule = module && g.importName = name

/-- `take_u16` and `take_u32`. -/
def takeLe (b : ByteString) (w : Nat) : Scan Nat := do
  let bytes ← Scan.take b w
  pure (leNat bytes)

/-- `take_str`. -/
def takeStr (b : ByteString) : Scan String := do
  let len ← takeLe b 2
  let bytes ← Scan.take b len
  Scan.ofOption (ofUtf8? bytes)

/-- One grant of the manifest. -/
def takeGrant (b : ByteString) : Scan CapGrant := do
  let importModule ← takeStr b
  let importName ← takeStr b
  let cap ← takeLe b 4
  pure ⟨importModule, importName, cap⟩

/-- `parse_package`: the manifest and the module. -/
def parsePackage (bytes : ByteString) : Option (WasmManifest × ByteString) :=
  if bytes.take 8 ≠ pkgMagic then none
  else
    ((do
      let name ← takeStr bytes
      let version ← takeLe bytes 4
      let ngrants ← takeLe bytes 2
      let grants ← Scan.times (takeGrant bytes) ngrants
      let wlen ← takeLe bytes 4
      let wasm ← Scan.take bytes wlen
      pure (⟨name, version, grants⟩, wasm) : Scan (WasmManifest × ByteString)) 8).map (·.1)

/-- A call of `dispatch`. -/
structure Dispatch where
  module : String
  name : String
  args : List I32
  deriving DecidableEq

/-- `dispatch`, over a state of its own. -/
abbrev Dispatcher (τ : Type) : Type := τ → Dispatch → Option (List I32) × τ

variable {τ : Type}

/-- `CapHost`: its state is that of `dispatch` and the calls made to it (newest first). -/
def capHost (manifest : WasmManifest) (imports : List ImportFunc) (granted : List Nat)
    (dispatch : Dispatcher τ) : Host (τ × List Dispatch) where
  callImport s index args :=
    match imports[index]? with
    | none => (none, s)
    | some imp =>
      match manifest.grantFor imp.module imp.name with
      | none => (none, s)
      | some grant =>
        if grant.cap ∈ granted then
          let call : Dispatch := ⟨imp.module, imp.name, args⟩
          match dispatch s.1 call with
          | (results, t) => (results, (t, call :: s.2))
        else (none, s)

/-- What `load_and_run` returned, the calls it made to `dispatch`, and what an observer of the
interpreter saw. -/
structure Report (τ : Type) where
  result : Option (List I32)
  dispatched : List Dispatch
  log : List Event
  state : τ

/-- Nothing ran. -/
def Report.rejected (t : τ) : Report τ := ⟨none, [], [], t⟩

/-- `load_and_run`. -/
def loadAndRun (package : ByteString) (name : String) (args : List I32) (granted : List Nat)
    (dispatch : Dispatcher τ) (t : τ) (fuel : Nat) : Report τ :=
  match parsePackage package with
  | none => .rejected t
  | some (manifest, wasm) =>
    match instantiate wasm with
    | none => .rejected t
    | some inst =>
      if inst.imports.any fun imp => (manifest.grantFor imp.module imp.name).isNone then .rejected t
      else
        match callExport inst (capHost manifest inst.imports granted dispatch) name args (t, []) fuel with
        | (result, w) => ⟨result, w.host.2, w.log, w.host.1⟩

/-! ## Fail-closed -/

/-- An import the module declares and the manifest has a grant for, with a granted cap. -/
def Allowed (manifest : WasmManifest) (inst : Instance) (granted : List Nat) (call : Dispatch) : Prop :=
  ∃ imp ∈ inst.imports, call.module = imp.module ∧ call.name = imp.name ∧
    ∃ grant ∈ manifest.grants, grant.importModule = imp.module ∧ grant.importName = imp.name ∧
      grant.cap ∈ granted

theorem grantFor_mem {manifest : WasmManifest} {module name : String} {grant : CapGrant}
    (h : manifest.grantFor module name = some grant) :
    grant ∈ manifest.grants ∧ grant.importModule = module ∧ grant.importName = name := by
  have hfound := List.find?_some h
  rw [Bool.and_eq_true, decide_eq_true_eq, decide_eq_true_eq] at hfound
  exact ⟨List.mem_of_find?_eq_some h, hfound.1, hfound.2⟩

/-- Every call the host passes on is allowed, and the interpreter's other primitives make none. -/
theorem kept_allowed (manifest : WasmManifest) (inst : Instance) (granted : List Nat)
    (dispatch : Dispatcher τ) :
    Kept inst (capHost manifest inst.imports granted dispatch)
      fun w => ∀ call ∈ w.host.2, Allowed manifest inst granted call where
  fetch code pos := by
    refine ⟨fun w h => ?_⟩
    rw [fetch]
    split
    · exact h
    · dsimp only
      split
      · exact h
      · exact h
  store ea bytes := by
    refine ⟨fun w h => ?_⟩
    rw [memStore]
    split
    · exact h
    · exact h
  grow delta := by
    refine ⟨fun w h => ?_⟩
    rw [memGrow]
    exact h
  enter := by
    refine ⟨fun w h => ?_⟩
    rw [enter]
    split
    · exact h
    · exact h
  leave := ⟨fun _ h => h⟩
  callImport fi args imp ftype himp _ _ := by
    refine ⟨fun w h => ?_⟩
    have hnew : ∀ call ∈ ((capHost manifest inst.imports granted dispatch).callImport w.host fi args).2.2,
        Allowed manifest inst granted call := by
      intro call hcall
      rw [capHost] at hcall
      dsimp only at hcall
      rw [himp] at hcall
      dsimp only at hcall
      split at hcall
      · exact h call hcall
      · rename_i grant hgrant
        obtain ⟨hmem, hmodule, hname⟩ := grantFor_mem hgrant
        split at hcall
        · rename_i hcap
          rcases List.mem_cons.mp hcall with rfl | hcall
          · exact ⟨imp, List.mem_of_getElem? himp, rfl, rfl, grant, hmem, hmodule, hname, hcap⟩
          · exact h call hcall
        · exact h call hcall
    rw [callImport]
    rcases hres : (capHost manifest inst.imports granted dispatch).callImport w.host fi args with
      ⟨_ | results, s⟩
    · rw [hres] at hnew
      exact hnew
    · rw [hres] at hnew
      exact hnew

/-- **Packages run fail-closed.** Every call of `dispatch` is for a function import that the
embedded module declares and the manifest grants with a granted cap; and if an import has no
grant, nothing is dispatched and no instruction executes. -/
theorem loadAndRun_failClosed (package : ByteString) (name : String) (args : List I32)
    (granted : List Nat) (dispatch : Dispatcher τ) (t : τ) (fuel : Nat) :
    (∀ call ∈ (loadAndRun package name args granted dispatch t fuel).dispatched,
      ∃ manifest wasm inst, parsePackage package = some (manifest, wasm) ∧ instantiate wasm = some inst ∧
        Allowed manifest inst granted call) ∧
    ∀ manifest wasm inst, parsePackage package = some (manifest, wasm) → instantiate wasm = some inst →
      (∃ imp ∈ inst.imports, ∀ grant ∈ manifest.grants,
        ¬ (grant.importModule = imp.module ∧ grant.importName = imp.name)) →
      (loadAndRun package name args granted dispatch t fuel).result = none ∧
        (loadAndRun package name args granted dispatch t fuel).dispatched = [] ∧
        (loadAndRun package name args granted dispatch t fuel).log = [] := by
  constructor
  · intro call hcall
    rw [loadAndRun] at hcall
    split at hcall
    · exact absurd hcall List.not_mem_nil
    rename_i manifest wasm hparse
    split at hcall
    · exact absurd hcall List.not_mem_nil
    rename_i inst hinst
    split at hcall
    · exact absurd hcall List.not_mem_nil
    refine ⟨manifest, wasm, inst, hparse, hinst, ?_⟩
    exact (kept_allowed manifest inst granted dispatch).callExportWith fuel name args
      (fun _ hc => absurd hc List.not_mem_nil) call hcall
  · rintro manifest wasm inst hparse hinst ⟨imp, himp, hnone⟩
    have hmissing : (inst.imports.any fun imp => (manifest.grantFor imp.module imp.name).isNone) = true := by
      refine List.any_eq_true.mpr ⟨imp, himp, ?_⟩
      rw [Option.isNone_iff_eq_none, WasmManifest.grantFor, List.find?_eq_none]
      intro grant hgrant hmatch
      rw [Bool.and_eq_true, decide_eq_true_eq, decide_eq_true_eq] at hmatch
      exact hnone grant hgrant hmatch
    have hrejected : loadAndRun package name args granted dispatch t fuel = .rejected t := by
      unfold loadAndRun
      rw [hparse]
      dsimp only
      rw [hinst]
      dsimp only
      rw [if_pos hmissing]
    rw [hrejected]
    exact ⟨rfl, rfl, rfl⟩

/-- A package around a module that imports `env.host_add` and exports
`use_host(a, b) = host_add(a, b) + 1`; `grants` is the manifest's list, encoded. -/
def hostAddPackage (grants : ByteString) : ByteString :=
  pkgMagic ++ ([0x05, 0x00, 0x61, 0x64, 0x64, 0x65, 0x72, 0x00, 0x00, 0x01, 0x00] ++ (grants ++
    ([0x44, 0x00, 0x00, 0x00, 0x00, 0x61, 0x73, 0x6d, 0x01, 0x00, 0x00, 0x00,
      0x01, 0x07, 0x01, 0x60, 0x02, 0x7F, 0x7F, 0x01, 0x7F,
      0x02, 0x10, 0x01, 0x03, 0x65, 0x6E, 0x76, 0x08, 0x68, 0x6F, 0x73, 0x74, 0x5F, 0x61, 0x64, 0x64,
      0x00, 0x00,
      0x03, 0x02, 0x01, 0x00,
      0x07, 0x0C, 0x01, 0x08, 0x75, 0x73, 0x65, 0x5F, 0x68, 0x6F, 0x73, 0x74, 0x00, 0x01,
      0x0A, 0x0D, 0x01, 0x0B, 0x00, 0x20, 0x00, 0x20, 0x01, 0x10, 0x00, 0x41, 0x01, 0x6A, 0x0B] :
      List UInt8)))

/-- One grant: `env.host_add` needs cap 5. -/
def hostAddGrants : List UInt8 :=
  [0x01, 0x00, 0x03, 0x00, 0x65, 0x6E, 0x76, 0x08, 0x00, 0x68, 0x6F, 0x73, 0x74, 0x5F, 0x61, 0x64, 0x64,
    0x05, 0x00, 0x00, 0x00]

/-- `host_add`. -/
def hostAdd : Dispatcher Unit := fun t call =>
  match call.args with
  | [a, b] => (some [a + b], t)
  | _ => (none, t)

/-- With the cap granted the import is dispatched once and is allowed; without a grant in the
manifest the package is rejected. -/
theorem hostAdd_failClosed :
    (loadAndRun (hostAddPackage hostAddGrants) "use_host" [3, 4] [5] hostAdd () 100).result = some [8] ∧
    (∀ call ∈ [(⟨"env", "host_add", [3, 4]⟩ : Dispatch)], ∃ manifest wasm inst,
      parsePackage (hostAddPackage hostAddGrants) = some (manifest, wasm) ∧
        instantiate wasm = some inst ∧ Allowed manifest inst [5] call) ∧
    (loadAndRun (hostAddPackage [0x00, 0x00]) "use_host" [3, 4] [5] hostAdd () 100).log = [] := by
  refine ⟨by decide +kernel, ?_, ?_⟩
  · have hcalls : (loadAndRun (hostAddPackage hostAddGrants) "use_host" [3, 4] [5] hostAdd () 100).dispatched =
        [⟨"env", "host_add", [3, 4]⟩] := by decide +kernel
    rw [← hcalls]
    exact (loadAndRun_failClosed (hostAddPackage hostAddGrants) "use_host" [3, 4] [5] hostAdd () 100).1
  · have hload : ∃ p inst, parsePackage (hostAddPackage [0x00, 0x00]) = some p ∧
        instantiate p.2 = some inst ∧ p.1.grants = [] ∧ inst.imports = [⟨"env", "host_add", 0⟩] := by
      have hsome : ((parsePackage (hostAddPackage [0x00, 0x00])).bind fun p =>
          (instantiate p.2).map fun inst => (p.1.grants, inst.imports)) =
          some ([], [⟨"env", "host_add", 0⟩]) := by decide
      obtain ⟨p, hp, hinst⟩ := Option.bind_eq_some_iff.mp hsome
      obtain ⟨inst, hinst, heq⟩ := Option.map_eq_some_iff.mp hinst
      exact ⟨p, inst, hp, hinst, (Prod.mk.inj heq).1, (Prod.mk.inj heq).2⟩
    obtain ⟨⟨manifest, wasm⟩, inst, hparse, hinst, hgrants, himports⟩ := hload
    refine ((loadAndRun_failClosed (hostAddPackage [0x00, 0x00]) "use_host" [3, 4] [5] hostAdd () 100).2
      manifest wasm inst hparse hinst ⟨⟨"env", "host_add", 0⟩, ?_, ?_⟩).2.2
    · rw [himports]
      exact List.mem_singleton_self _
    · intro grant hgrant
      rw [hgrants] at hgrant
      exact absurd hgrant List.not_mem_nil

end AthenaOS.Wasm
