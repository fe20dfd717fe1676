import StratumPool.Text

namespace StratumPool.Provider

open StratumPool.Text

inductive SorError where
  | redis (detail : Str)
  | poolError (detail : Str)
  | insufficientLiquidity (asset : Str)
  | slippageViolation
  | broadcastFailure (detail : Str)
  deriving DecidableEq

def SorError.toText : SorError → Str
  | .redis detail => lit "Redis state fault: " ++ detail
  | .poolError detail => lit "Pool connection error: " ++ detail
  | .insufficientLiquidity asset =>
      lit "Insufficient liquidity constraints for asset: " ++ asset
  | .slippageViolation => lit "Slippage tolerance violated during route locking"
  | .broadcastFailure detail => lit "Transaction broadcasting failure: " ++ detail

end StratumPool.Provider
