import Recompiler.Dispatch.Core
import Recompiler.Text.Record

/-! The recompiler and its code cache in words. -/

namespace Recompiler

open Text (record)

def Protection.text : Protection → String
  | always => "Rwx"
  | exclusive => "WriteXorExecute"

def Backend.text : Backend → String
  | native => "Native"
  | portable => "Portable"

def Settings.text (s : Settings) : String :=
  record "DynrecConfig"
    [("cache_size", toString s.cacheSize), ("max_block_size", toString s.maxBlockSize),
      ("block_count", toString s.blockCount), ("code_pages", toString s.codePages), ("align", toString s.align),
      ("hash_shift", toString s.hashShift), ("max_instructions", toString s.maxInstructions),
      ("heavy_rewrite_threshold", toString s.overwriteThreshold), ("release_delay", toString s.releaseDelay),
      ("mask_initial_len", toString s.maskInitialLen), ("mask_growth", toString s.maskGrowth),
      ("protection", s.protection.text), ("backend", s.backend.text)]

def Stats.text (s : Stats) : String :=
  record "DispatchStats"
    [("lookups", toString s.lookups), ("translations", toString s.compilations),
      ("block_runs", toString s.blockRuns), ("links", toString s.links),
      ("interpreter_runs", toString s.interpreterRuns), ("interpreter_steps", toString s.interpreterSteps),
      ("smc_exits", toString s.smcExits), ("page_faults", toString s.pageFaults),
      ("divide_errors", toString s.divideErrors), ("callbacks", toString s.callbacks)]

def Core.text (c : Core) : String :=
  record "Dynrec"
    [("config", c.settings.text), ("enabled", Text.bool c.enabled), ("trap", Text.bool c.trap),
      ("stats", c.stats.text)]

def CacheStats.text (s : CacheStats) : String :=
  record "CacheStats"
    [("blocks_opened", toString s.opened), ("blocks_cleared", toString s.cleared),
      ("links_made", toString s.links), ("wraps", toString s.wraps), ("pages_installed", toString s.installed),
      ("pages_released", toString s.released), ("anomalies", toString s.anomalies)]

def Cache.text (c : Cache) : String :=
  record "CodeCache"
    [("blocks", toString c.blocks.size), ("active", Text.tuple "BlockId" (toString c.active)),
      ("pages_in_use", toString c.byPage.size), ("stats", c.stats.text)]

end Recompiler
