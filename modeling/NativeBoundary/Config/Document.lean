import NativeBoundary.Config.Settings
import NativeBoundary.Toml.Document

/-!
# Configurations as documents

A configuration is read from a TOML document, setting by setting: a setting that is absent
keeps its default and a key that names no setting is passed over.  A group of settings is
normally a table; it may also be an array of its settings in order, and then further items are
passed over.  Writing names every setting.

* `Config.ofDocument` — reading, then `Config.validate`.
* `Config.document?` — writing; a document cannot hold a number of `2⁶³` or more.
-/

namespace NativeBoundary

open Toml

namespace Config

/-- How the settings of a group are found: by name in a table, by position in an array.  A
moment is a group without settings. -/
def settingOf? : Value → Option (Nat → String → Option Value)
  | .table _ entries => some fun _ name => Entries.get? entries name
  | .array items => some fun i _ => items[i]?
  | .rows tables => some fun i _ => (tables[i]?).map (.table .header)
  | .moment _ => some fun _ _ => none
  | _ => none

/-- A setting that is on or off. -/
def flag? : Value → Option Bool
  | .boolean b => some b
  | _ => none

/-- A setting that counts. -/
def count? : Value → Option Nat
  | .integer n => if 0 ≤ n then some n.toNat else none
  | _ => none

/-- The default for what is absent, the reading of what is there. -/
def orDefault {α : Type} (value : α) (read? : Value → Option α) : Option Value → Option α
  | none => some value
  | some v => read? v

/-- The strategy group. -/
def strategy? (v : Value) : Option StrategySettings := do
  let setting ← settingOf? v
  some { forceOwned := ← orDefault false flag? (setting 0 "force_owned") }

/-- The pool group. -/
def pool? (v : Value) : Option PoolSettings := do
  let setting ← settingOf? v
  let enabled ← orDefault true flag? (setting 0 "enabled")
  let blocks ← orDefault defaultBlocks count? (setting 1 "blocks")
  let blockSize ← orDefault defaultBlockSize count? (setting 2 "block_size")
  some { enabled, blocks, blockSize }

/-- The zeroization group. -/
def zeroize? (v : Value) : Option ZeroizeSettings := do
  let setting ← settingOf? v
  some { publicBuffers := ← orDefault false flag? (setting 0 "public_buffers") }

/-- The settings that the entries of a document give. -/
def ofEntries? (entries : Entries) : Option Config := do
  let strategy ← orDefault {} strategy? (entries.get? "strategy")
  let pool ← orDefault {} pool? (entries.get? "pool")
  let zeroize ← orDefault {} zeroize? (entries.get? "zeroize")
  some { strategy, pool, zeroize }

/-- The configuration that a document gives, if it is well formed and valid. -/
def ofDocument (text : String) : Except ConfigFault Config :=
  match (parse? text).bind ofEntries? with
  | none => .error .malformed
  | some config => do
      config.validate
      return config

/-- Whether a document can hold a number. -/
def fitsDocument (n : Nat) : Bool := n < 0x8000000000000000

/-- The document that names every setting. -/
def document? (c : Config) : Option String :=
  if fitsDocument c.pool.blocks && fitsDocument c.pool.blockSize then
    some ("[strategy]\nforce_owned = " ++ toString c.strategy.forceOwned ++
      "\n\n[pool]\nenabled = " ++ toString c.pool.enabled ++
      "\nblocks = " ++ toString c.pool.blocks ++
      "\nblock_size = " ++ toString c.pool.blockSize ++
      "\n\n[zeroize]\npublic_buffers = " ++ toString c.zeroize.publicBuffers ++ "\n")
  else none

end Config

end NativeBoundary
