/-!
# Settings

What can be configured: whether every input is copied, the pool of preallocated blocks, and
whether public buffers are wiped as well.  Each setting has a default, so that an absent file
and an empty document both give a working configuration.

* `Config.validate` — the two rules a configuration has to keep.
* `ConfigFault.message` — why a configuration could not be had, in words.
-/

namespace NativeBoundary

/-- The number of blocks of a pool, unless configured. -/
def defaultBlocks : Nat := 64

/-- The size of a block, unless configured: large enough for scalars, keys and seeds. -/
def defaultBlockSize : Nat := 256

/-- The largest value of a size field of the native side, `2³¹ - 1`. -/
def nativeSizeLimit : Nat := 0x7fffffff

/-- How inputs cross. -/
structure StrategySettings where
  /-- Copy every input into native memory, whatever the shape of the call. -/
  forceOwned : Bool := false
deriving DecidableEq, Repr

/-- The pool of preallocated blocks. -/
structure PoolSettings where
  enabled : Bool := true
  blocks : Nat := defaultBlocks
  blockSize : Nat := defaultBlockSize
deriving DecidableEq, Repr

/-- What is wiped. -/
structure ZeroizeSettings where
  /-- Wipe public buffers on release too. -/
  publicBuffers : Bool := false
deriving DecidableEq, Repr

/-- A whole configuration. -/
structure Config where
  strategy : StrategySettings := {}
  pool : PoolSettings := {}
  zeroize : ZeroizeSettings := {}
deriving DecidableEq, Repr

instance : Inhabited Config := ⟨{}⟩

/-- Why the file system refused. -/
inductive FileFault
  | isDirectory
  | notDirectory
  | noSuchEntry
  /-- A name or a path has too many bytes. -/
  | nameTooLong
  | zeroByte
  | notText
  /-- A number that a document cannot hold. -/
  | numberTooLarge
deriving DecidableEq, Repr

/-- Which rule a configuration breaks. -/
inductive Invalidity
  | emptyPool
  | blockTooLarge
deriving DecidableEq, Repr

/-- Why a configuration could not be had. -/
inductive ConfigFault
  | file (fault : FileFault)
  /-- The document is malformed, or a setting has a value of the wrong kind. -/
  | malformed
  | notFound (path : String)
  | invalid (rule : Invalidity)
deriving DecidableEq, Repr

namespace FileFault

/-- The refusal in words. -/
def message : FileFault → String
  | isDirectory => "Is a directory (os error 21)"
  | notDirectory => "Not a directory (os error 20)"
  | noSuchEntry => "No such file or directory (os error 2)"
  | nameTooLong => "File name too long (os error 36)"
  | zeroByte => "file name contained an unexpected NUL byte"
  | notText => "stream did not contain valid UTF-8"
  | numberTooLarge => "out-of-range value for u64 type"

end FileFault

namespace Invalidity

/-- The broken rule in words. -/
def message : Invalidity → String
  | emptyPool => "pool.blocks and pool.block_size must be nonzero when the pool is enabled"
  | blockTooLarge => "pool.block_size exceeds the native size field"

end Invalidity

namespace ConfigFault

/-- The fault in words. -/
def message : ConfigFault → String
  | file fault => s!"Failed to read config file: {fault.message}"
  | malformed => "Failed to parse config"
  | notFound path => s!"Config file not found: {path}"
  | invalid rule => s!"Invalid config: {rule.message}"

end ConfigFault

namespace Config

/-- An enabled pool has blocks and they are not empty; the size of a block fits the size field
of the native side in any case. -/
def validate (c : Config) : Except ConfigFault Unit :=
  if c.pool.enabled ∧ (c.pool.blocks = 0 ∨ c.pool.blockSize = 0) then
    .error (.invalid .emptyPool)
  else if c.pool.blockSize > nativeSizeLimit then .error (.invalid .blockTooLarge)
  else .ok ()

/-- The configuration as a value of its type. -/
def describe (c : Config) : String :=
  "BridgeConfig \x7b strategy: StrategyConfig \x7b force_owned: " ++
  toString c.strategy.forceOwned ++ " \x7d, pool: PoolConfig \x7b enabled: " ++ toString c.pool.enabled ++
  ", blocks: " ++ toString c.pool.blocks ++ ", block_size: " ++ toString c.pool.blockSize ++
  " \x7d, zeroize: ZeroizeConfig \x7b public_buffers: " ++ toString c.zeroize.publicBuffers ++
  " \x7d \x7d"

theorem validate_default : (default : Config).validate = .ok () := rfl

/-- A configuration is valid exactly when it keeps both rules. -/
theorem validate_eq_ok_iff (c : Config) :
    c.validate = .ok () ↔
      (c.pool.enabled → c.pool.blocks ≠ 0 ∧ c.pool.blockSize ≠ 0) ∧
        c.pool.blockSize ≤ nativeSizeLimit := by
  unfold validate
  split
  · rename_i h
    simp only [reduceCtorEq, false_iff, not_and]
    intro hp
    have := hp h.1
    omega
  · rename_i h
    split
    · rename_i hl
      simp only [reduceCtorEq, false_iff, not_and]
      omega
    · rename_i hl
      simp only [true_iff]
      refine ⟨fun he => ?_, by omega⟩
      have : ¬ (c.pool.blocks = 0 ∨ c.pool.blockSize = 0) := fun hz => h ⟨he, hz⟩
      omega

end Config

end NativeBoundary
